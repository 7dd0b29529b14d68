/-! Texts in bytes, where every sequence that is not UTF-8 is read as one replacement character.
A sequence ends with the last byte that could have gone on. -/
namespace DevEnv.Text.Utf8

def replacement : Char := Char.ofNat 0xFFFD

/-- A character whose first bytes have been read. -/
structure Begun where
  value : Nat
  missing : Nat
  /-- The range that the next byte has to be in. -/
  low : Nat
  high : Nat

/-- What a byte at the start of a character can be. -/
inductive Lead where
  | whole (c : Char)
  | begun (s : Begun)
  | stray

def lead (b : UInt8) : Lead :=
  let n := b.toNat
  if n < 0x80 then .whole (Char.ofNat n)
  else if n < 0xC2 then .stray
  else if n < 0xE0 then .begun ⟨n - 0xC0, 1, 0x80, 0xBF⟩
  else if n < 0xF0 then
    .begun ⟨n - 0xE0, 2, if n = 0xE0 then 0xA0 else 0x80, if n = 0xED then 0x9F else 0xBF⟩
  else if n < 0xF5 then
    .begun ⟨n - 0xF0, 3, if n = 0xF0 then 0x90 else 0x80, if n = 0xF4 then 0x8F else 0xBF⟩
  else .stray

/-- Reads on, perhaps inside a character. -/
def decodeFrom : Option Begun → List UInt8 → List Char
  | none, [] => []
  | some _, [] => [replacement]
  | none, b :: rest =>
    match lead b with
    | .whole c => c :: decodeFrom none rest
    | .begun s => decodeFrom (some s) rest
    | .stray => replacement :: decodeFrom none rest
  | some s, b :: rest =>
    if s.low ≤ b.toNat && b.toNat ≤ s.high then
      let value := s.value * 64 + b.toNat % 64
      if s.missing = 1 then Char.ofNat value :: decodeFrom none rest
      else decodeFrom (some ⟨value, s.missing - 1, 0x80, 0xBF⟩) rest
    else
      replacement :: match lead b with
        | .whole c => c :: decodeFrom none rest
        | .begun s => decodeFrom (some s) rest
        | .stray => replacement :: decodeFrom none rest

/-- The text of some bytes, whatever they are. -/
def decode (bytes : List UInt8) : String := String.ofList (decodeFrom none bytes)

/-- The text of bytes that are UTF-8 throughout. -/
def decode? (bytes : List UInt8) : Option String := String.fromUTF8? ⟨bytes.toArray⟩

end DevEnv.Text.Utf8
