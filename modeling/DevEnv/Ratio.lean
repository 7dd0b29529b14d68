/-! Quotients of whole numbers, rounded to the 53 significant bits of a double-precision number.
A half goes to the even neighbour. -/
namespace DevEnv

/-- A quotient of whole numbers. -/
structure Ratio where
  num : Nat
  den : Nat
  deriving DecidableEq, Repr

namespace Ratio

instance : Mul Ratio := ⟨fun r s => ⟨r.num * s.num, r.den * s.den⟩⟩

/-- The nearest whole number; a half goes to the even neighbour. -/
def round (r : Ratio) : Nat :=
  let q := r.num / r.den
  let rest := r.num % r.den
  if 2 * rest < r.den || (2 * rest = r.den && q % 2 = 0) then q else q + 1

/-- The nearest number of 53 significant bits to a ratio of at least one. -/
def rounded (r : Ratio) : Ratio :=
  let e := Nat.log2 (r.num / r.den)
  if e ≤ 52 then ⟨round ⟨r.num <<< (52 - e), r.den⟩, 1 <<< (52 - e)⟩
  else ⟨round ⟨r.num, r.den <<< (e - 52)⟩ <<< (e - 52), 1⟩

/-- Whether a ratio of at least one, once rounded, is a finite double-precision number. -/
def isFinite (r : Ratio) : Bool := r.rounded.num < (1 <<< 1024) * r.rounded.den

end Ratio
end DevEnv
