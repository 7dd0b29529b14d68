import DevEnv.Ratio
import DevEnv.Text.Numeral

/-! Sizes in bytes with a decimal unit and one place after the point.
The size is brought down by thousands in numbers of 53 significant bits. -/
namespace DevEnv.Text.Magnitude

/-- Divides by a thousand, unit by unit, until less than a thousand or the last unit is left. -/
def scaled (r : Ratio) (unit : String) : List String → Ratio × String
  | [] => (r, unit)
  | larger :: units =>
    if r.num < 1000 * r.den then (r, unit) else scaled (Ratio.rounded ⟨r.num, 1000 * r.den⟩) larger units

/-- A ratio with one place after the point. -/
def tenths (r : Ratio) : String :=
  let n := Ratio.round ⟨10 * r.num, r.den⟩
  ofNat (n / 10) ++ "." ++ ofNat (n % 10)

/-- A size in bytes in the largest unit of which there is one. -/
def render (bytes : Nat) : String :=
  if bytes < 1000 then ofNat bytes ++ "B"
  else
    let (r, unit) := scaled (Ratio.rounded ⟨bytes, 1⟩) "B" ["KB", "MB", "GB", "TB"]
    tenths r ++ unit

end DevEnv.Text.Magnitude
