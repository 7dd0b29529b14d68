import DevEnv.Ratio
import DevEnv.Text.Numeral

/-! Decimals with a whole significand, and which of them have a finite value in double precision:
the nearest one, or the one got by multiplying significand and power of ten in double precision. -/
namespace DevEnv

/-- A significand times a power of ten. -/
structure Decimal where
  significand : Nat
  exponent : Int
  deriving DecidableEq, Repr

namespace Decimal

/-- The number of digits before the point; it is not positive for a number below one. -/
def size (d : Decimal) : Int := (Text.digits d.significand).length + d.exponent

def toRatio (d : Decimal) : Ratio :=
  ⟨d.significand * Nat.pow 10 d.exponent.toNat, Nat.pow 10 (-d.exponent).toNat⟩

/-- Whether the nearest value is finite. The largest finite value has 309 digits, so only for as many
the power of ten is needed. -/
def isFinite (d : Decimal) : Bool :=
  d.significand = 0 || d.size ≤ 308 || (d.size = 309 && d.toRatio.isFinite)

/-- Whether the product of significand and power of ten is finite, where both factors are rounded first.
Without a positive power a significand of 64 bits is finite, and no power above the 308th is. -/
def hasProduct (d : Decimal) : Bool :=
  d.significand = 0 || d.exponent ≤ 0 || (d.exponent ≤ 308 &&
    (Ratio.rounded ⟨d.significand, 1⟩ * Ratio.rounded ⟨Nat.pow 10 d.exponent.toNat, 1⟩).isFinite)

end Decimal
end DevEnv
