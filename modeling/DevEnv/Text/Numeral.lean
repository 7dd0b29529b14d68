/-! Whole numbers in decimal digits, written plainly and read within a range.
A sign may stand in front when a number is read. -/
namespace DevEnv.Text

def digits (n : Nat) : List Char := Nat.toDigits 10 n

def ofNat (n : Nat) : String := String.ofList (digits n)

def intChars (i : Int) : List Char := if i < 0 then '-' :: digits i.natAbs else digits i.natAbs

def ofInt (i : Int) : String := String.ofList (intChars i)

/-- The value of a run of digits read after a number. -/
def valueFrom (n : Nat) : List Char → Option Nat
  | [] => some n
  | c :: rest => if c.isDigit then valueFrom (10 * n + (c.toNat - 48)) rest else none

/-- The value of a run of at least one digit. -/
def value? : List Char → Option Nat
  | [] => none
  | cs => valueFrom 0 cs

/-- A number with an optional plus. -/
def natChars? (cs : List Char) : Option Nat := value? (if cs.head? = some '+' then cs.tail else cs)

/-- A number with an optional plus, no larger than the limit. -/
def readNat? (limit : Nat) (s : String) : Option Nat := (natChars? s.toList).filter (· ≤ limit)

def readPort? (s : String) : Option UInt16 := (readNat? (UInt16.size - 1) s).map Nat.toUInt16

/-- A number with an optional sign. -/
def intChars? (cs : List Char) : Option Int :=
  match cs with
  | '-' :: rest => (value? rest).map fun n => -(n : Int)
  | cs => (natChars? cs).map fun n => (n : Int)

/-- Whether a number has a signed representation in 64 bits. -/
def isInt64 (i : Int) : Bool := Int64.minValue.toInt ≤ i && i ≤ Int64.maxValue.toInt

/-- A number of 64 bits with an optional sign. -/
def readInt64? (s : String) : Option Int64 := ((intChars? s.toList).filter isInt64).map Int64.ofInt

end DevEnv.Text
