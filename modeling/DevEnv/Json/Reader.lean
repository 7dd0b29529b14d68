import DevEnv.Json.Basic
import DevEnv.Json.Escape
import DevEnv.Text.Utf8

/-! Reading JSON texts by the letter of the grammar. A text is one value with blanks around it,
and reading looks no further into a part than its spelling: even the bytes of a string are not asked to be a text
unless its value is used. -/
namespace DevEnv.Json

def isBlank (c : Char) : Bool := c = ' ' || c = '\t' || c = '\n' || c = '\r'

def skipBlank (cs : List Char) : List Char := cs.dropWhile isBlank

/-- The rest of a string after its opening quote: what stands before the closing quote, and what follows. -/
def scanString : List Char → Option (List Char × List Char)
  | [] => none
  | '"' :: rest => some ([], rest)
  | '\\' :: 'u' :: a :: b :: c :: d :: rest =>
    if (unit? a b c d).isSome then
      (scanString rest).map fun p => ('\\' :: 'u' :: a :: b :: c :: d :: p.1, p.2)
    else none
  | '\\' :: e :: rest =>
    if (escaped? e).isSome then (scanString rest).map fun p => ('\\' :: e :: p.1, p.2) else none
  | c :: rest =>
    if c.toNat < 32 || c = '\\' then none else (scanString rest).map fun p => (c :: p.1, p.2)

/-- A run of digits and what follows it. -/
def digitRun (cs : List Char) : List Char × List Char := (cs.takeWhile Char.isDigit, cs.dropWhile Char.isDigit)

/-- Digits before the point: a zero alone or a run that does not start with zero. -/
def readWhole : List Char → Option (Nat × List Char)
  | '0' :: rest => some (0, rest)
  | cs => (Text.value? (digitRun cs).1).map fun n => (n, (digitRun cs).2)

/-- A point with at least one digit, if there is a point. -/
def readFraction : List Char → Option (Option (List Char) × List Char)
  | '.' :: rest =>
    if (digitRun rest).1.isEmpty then none else some (some (digitRun rest).1, (digitRun rest).2)
  | cs => some (none, cs)

/-- An exponent with at least one digit, if there is one. -/
def readExponent : List Char → Option (Option Int × List Char)
  | c :: rest =>
    if c = 'e' || c = 'E' then
      let (sign, body) : Int × List Char := match rest with
        | '+' :: more => (1, more)
        | '-' :: more => (-1, more)
        | more => (1, more)
      (Text.value? (digitRun body).1).map fun n => (some (sign * n), (digitRun body).2)
    else some (none, c :: rest)
  | [] => some (none, [])

def readNumber (cs : List Char) : Option (Number × List Char) := do
  let (negative, body) := match cs with
    | '-' :: rest => (true, rest)
    | rest => (false, rest)
  let (whole, body) ← readWhole body
  let (fraction, body) ← readFraction body
  let (exponent, body) ← readExponent body
  return (⟨negative, whole, fraction, exponent⟩, body)

mutual

/-- A value and what follows it. The fuel bounds the number of parts. -/
def readValue : Nat → List Char → Option (Json × List Char)
  | 0, _ => none
  | fuel + 1, cs =>
    match skipBlank cs with
    | 'n' :: 'u' :: 'l' :: 'l' :: rest => some (.null, rest)
    | 't' :: 'r' :: 'u' :: 'e' :: rest => some (.bool true, rest)
    | 'f' :: 'a' :: 'l' :: 's' :: 'e' :: rest => some (.bool false, rest)
    | '"' :: rest => (scanString rest).map fun p => (.string p.1, p.2)
    | '[' :: rest =>
      match skipBlank rest with
      | ']' :: rest => some (.array [], rest)
      | rest => (readItems fuel rest).map fun p => (.array p.1, p.2)
    | '{' :: rest =>
      match skipBlank rest with
      | '}' :: rest => some (.object [], rest)
      | rest => (readMembers fuel rest).map fun p => (.object p.1, p.2)
    | rest => (readNumber rest).map fun p => (.number p.1, p.2)

/-- At least one value, up to the closing bracket. -/
def readItems : Nat → List Char → Option (List Json × List Char)
  | 0, _ => none
  | fuel + 1, cs => do
    let (item, rest) ← readValue fuel cs
    match skipBlank rest with
    | ',' :: rest => (readItems fuel rest).map fun p => (item :: p.1, p.2)
    | ']' :: rest => some ([item], rest)
    | _ => none

/-- At least one member, up to the closing brace. -/
def readMembers : Nat → List Char → Option (List (List Char × Json) × List Char)
  | 0, _ => none
  | fuel + 1, cs =>
    match skipBlank cs with
    | '"' :: rest => do
      let (key, rest) ← scanString rest
      match skipBlank rest with
      | ':' :: rest => do
        let (value, rest) ← readValue fuel rest
        match skipBlank rest with
        | ',' :: rest => (readMembers fuel rest).map fun p => ((key, value) :: p.1, p.2)
        | '}' :: rest => some ([(key, value)], rest)
        | _ => none
      | _ => none
    | _ => none

end

/-- A text that is one value. -/
def readChars (cs : List Char) : Option Json := do
  let (value, rest) ← readValue (cs.length + 1) cs
  if (skipBlank rest).isEmpty then some value else none

def read? (s : String) : Option Json := readChars s.toList

/-- What is written in a string that was read byte by byte. Bytes that are no text leave a lone backslash, which stands
for no characters. -/
def writtenIn (bytes : List Char) : List Char :=
  ((Text.Utf8.decode? (bytes.map fun c => c.toNat.toUInt8)).map String.toList).getD ['\\']

mutual

/-- A value that was read byte by byte, with its strings in characters. -/
def inCharacters : Json → Json
  | .string bytes => .string (writtenIn bytes)
  | .array items => .array (itemsInCharacters items)
  | .object members => .object (membersInCharacters members)
  | value => value

def itemsInCharacters : List Json → List Json
  | [] => []
  | item :: items => inCharacters item :: itemsInCharacters items

def membersInCharacters : List (List Char × Json) → List (List Char × Json)
  | [] => []
  | (key, value) :: members => (writtenIn key, inCharacters value) :: membersInCharacters members

end

/-- The value that some bytes are. They are read as if each were a character: those of the grammar are single bytes, and
no others may stand outside of quotes. -/
def readBytes? (bytes : List UInt8) : Option Json :=
  (readChars (bytes.map fun b => Char.ofNat b.toNat)).map inCharacters

end DevEnv.Json
