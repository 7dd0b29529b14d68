import DevEnv.Decimal

/-! Numbers as they are written, with their fraction and exponent: the integers among them,
and those that are small enough to be kept. -/
namespace DevEnv.Json

/-- A written number. -/
structure Number where
  negative : Bool
  whole : Nat
  /-- The digits after the point, if there is one. -/
  fraction : Option (List Char)
  exponent : Option Int
  deriving DecidableEq, Repr

namespace Number

/-- The number without fraction and exponent that stands for an integer. -/
def ofInt (i : Int) : Number := ⟨decide (i < 0), i.natAbs, none, none⟩

/-- The integer a number stands for, when it is written as one; minus zero is not. -/
def toInt? (n : Number) : Option Int :=
  match n with
  | ⟨false, whole, none, none⟩ => some whole
  | ⟨true, whole, none, none⟩ => if whole = 0 then none else some (-(whole : Int))
  | _ => none

/-- The magnitude of a number. -/
def toDecimal (n : Number) : Decimal :=
  let tail := n.fraction.getD []
  ⟨(Text.value? (Text.digits n.whole ++ tail)).getD 0, n.exponent.getD 0 - tail.length⟩

/-- Appends digits to a significand as long as it fits 64 bits: the significand, and the digits left over. -/
def appendDigits (significand : Nat) : List Char → Nat × List Char
  | [] => (significand, [])
  | c :: rest =>
    let longer := 10 * significand + (c.toNat - 48)
    if longer < UInt64.size then appendDigits longer rest else (significand, c :: rest)

/-- A magnitude whose significand is what 64 bits take in of the digits. Digits left over before the point
add to the exponent, those left over after it are dropped. -/
def toWordDecimal (n : Number) : Decimal :=
  let tail := n.fraction.getD []
  let (significand, left) := appendDigits 0 (Text.digits n.whole)
  let (significand, dropped) := appendDigits significand tail
  ⟨significand, n.exponent.getD 0 + left.length + dropped.length - tail.length⟩

/-- Whether a number has a finite value, which is computed with a significand of 64 bits. -/
def isKept (n : Number) : Bool := n.toWordDecimal.hasProduct

end Number
end DevEnv.Json
