import DevEnv.Text.Numeral

/-! Spans of time and points on a clock, both in nanoseconds.
A span is written in the largest unit that it fills. -/
namespace DevEnv

/-- A span of time in nanoseconds. -/
structure Span where
  nanos : Nat
  deriving DecidableEq, Repr, Inhabited

namespace Span

/-- The nanoseconds of the larger units. -/
def second : Nat := 1000000000
def milli : Nat := 1000000
def micro : Nat := 1000

def ofSeconds (n : Nat) : Span := ⟨n * second⟩
def ofMillis (n : Nat) : Span := ⟨n * milli⟩

/-- The last `places` digits of a number, zeros in front where it has fewer. -/
def lastDigits : Nat → Nat → List Char
  | 0, _ => []
  | places + 1, n => lastDigits places (n / 10) ++ [Char.ofNat (48 + n % 10)]

/-- A number of units with a fraction of so many places, without zeros at its end. -/
def withFraction (places unit n : Nat) : String :=
  let fraction := ((lastDigits places n).reverse.dropWhile (· = '0')).reverse
  Text.ofNat (n / unit) ++ if fraction.isEmpty then "" else String.ofList ('.' :: fraction)

/-- A span in seconds, or in the largest smaller unit of which it has at least one. -/
def render (s : Span) : String :=
  if second ≤ s.nanos then withFraction 9 second s.nanos ++ "s"
  else if milli ≤ s.nanos then withFraction 6 milli s.nanos ++ "ms"
  else if micro ≤ s.nanos then withFraction 3 micro s.nanos ++ "µs"
  else Text.ofNat s.nanos ++ "ns"

end Span

/-- A point on a clock, in nanoseconds since it started. -/
structure Instant where
  nanos : Nat
  deriving DecidableEq, Repr, Inhabited

namespace Instant

/-- The last point that the clock can show, which counts seconds in 63 bits. -/
def last : Instant := ⟨1 <<< 63 * Span.second - 1⟩

/-- The point after a span, if the clock can show it. -/
def after? (t : Instant) (s : Span) : Option Instant :=
  if t.nanos + s.nanos ≤ last.nanos then some ⟨t.nanos + s.nanos⟩ else none

/-- The span until a point, nothing if it has passed. -/
def spanTo (t limit : Instant) : Span := ⟨limit.nanos - t.nanos⟩

end Instant
end DevEnv
