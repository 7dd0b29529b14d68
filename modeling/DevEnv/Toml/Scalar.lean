import DevEnv.Json.Reader
import DevEnv.Time.Timestamp
import DevEnv.Toml.Basic

/-! Numbers, truth values and dates, told apart by their spelling.
A word that has none of these spellings is no value. -/
namespace DevEnv.Toml

/-- The characters that numbers and dates are spelled with. -/
def isWordChar (c : Char) : Bool := c.isAlphanum || c = '_' || c = '+' || c = '-' || c = '.' || c = ':'

/-- Digits in a base with single underscores between them: their value and what follows. -/
def digitsFrom (digit? : Char → Option Nat) (base : Nat) : Nat → List Char → Nat × List Char
  | n, [] => (n, [])
  | n, '_' :: c :: rest =>
    match digit? c with
    | some d => digitsFrom digit? base (base * n + d) rest
    | none => (n, '_' :: c :: rest)
  | n, c :: rest =>
    match digit? c with
    | some d => digitsFrom digit? base (base * n + d) rest
    | none => (n, c :: rest)

/-- The value of a run of at least one digit, and what follows. -/
def readDigits? (digit? : Char → Option Nat) (base : Nat) : List Char → Option (Nat × List Char)
  | [] => none
  | c :: rest => (digit? c).map fun d => digitsFrom digit? base d rest

/-- The value of a digit in a base of up to sixteen. -/
def digitIn (base : Nat) (c : Char) : Option Nat :=
  let n := c.toNat
  let value :=
    if c.isDigit then some (n - 48)
    else if 'a' ≤ c && c ≤ 'f' then some (n - 87)
    else if 'A' ≤ c && c ≤ 'F' then some (n - 55)
    else none
  value.filter (· < base)

/-- The part before the point: zero alone, or a run that does not start with zero. -/
def readWhole? (cs : List Char) : Option (Nat × List Char) :=
  match cs with
  | '0' :: rest => some (0, rest)
  | cs => readDigits? (digitIn 10) 10 cs

def splitSign : List Char → Bool × List Char
  | '+' :: rest => (false, rest)
  | '-' :: rest => (true, rest)
  | cs => (false, cs)

/-- A whole number of 64 bits; in another base than ten it has no sign. -/
def isInteger (cs : List Char) : Bool :=
  let based (base : Nat) (ds : List Char) : Bool := match readDigits? (digitIn base) base ds with
    | some (n, []) => Text.isInt64 n
    | _ => false
  match cs with
  | '0' :: 'x' :: ds => based 16 ds
  | '0' :: 'o' :: ds => based 8 ds
  | '0' :: 'b' :: ds => based 2 ds
  | cs =>
    match readWhole? (splitSign cs).2 with
    | some (n, []) => Text.isInt64 (if (splitSign cs).1 then -(n : Int) else n)
    | _ => false

/-- An exponent up to the end. -/
def isExponent : List Char → Bool
  | c :: rest =>
    (c = 'e' || c = 'E') && match readDigits? (digitIn 10) 10 (splitSign rest).2 with
      | some (_, []) => true
      | _ => false
  | [] => false

/-- What follows the whole part: a point with digits, an exponent, or both. -/
def isFractionOrExponent : List Char → Bool
  | '.' :: rest =>
    match readDigits? (digitIn 10) 10 rest with
    | some (_, []) => true
    | some (_, rest) => isExponent rest
    | none => false
  | rest => isExponent rest

/-- Whether the number spelled by digits is within bounds. -/
def isFinite (body : List Char) : Bool := (Json.readNumber (body.filter (· ≠ '_'))).any (·.1.toDecimal.isFinite)

/-- A number with a point or an exponent. A positive one has to be within bounds, unless it is spelled as infinite. -/
def isFloat (cs : List Char) : Bool :=
  let (negative, body) := splitSign cs
  body = "inf".toList || body = "nan".toList ||
    match readWhole? body with
    | some (_, rest) => isFractionOrExponent rest && (negative || isFinite body)
    | none => false

def isDate (cs : List Char) : Bool :=
  match cs with
  | [a, b, c, d, '-', m, n, '-', x, y] =>
    match Text.value? [a, b, c, d], Text.value? [m, n], Text.value? [x, y] with
    | some year, some month, some day =>
      1 ≤ month && month ≤ 12 && 1 ≤ day && day ≤ Timestamp.daysInMonth year month
    | _, _, _ => false
  | _ => false

/-- Hours and minutes, and what follows. -/
def readHourMinute? : List Char → Option (List Char)
  | a :: b :: ':' :: c :: d :: rest =>
    match Text.value? [a, b], Text.value? [c, d] with
    | some hour, some minute => if hour < 24 && minute < 60 then some rest else none
    | _, _ => none
  | _ => none

/-- A time of day, and what follows. -/
def readTime? (cs : List Char) : Option (List Char) :=
  match readHourMinute? cs with
  | some (':' :: a :: b :: rest) =>
    match Text.value? [a, b] with
    | some second =>
      if second ≤ 60 then
        match rest with
        | '.' :: c :: rest => if c.isDigit then some (rest.dropWhile Char.isDigit) else none
        | '.' :: [] => none
        | rest => some rest
      else none
    | none => none
  | _ => none

/-- The distance from UTC, or nothing. -/
def isOffset : List Char → Bool
  | [] => true
  | ['Z'] => true
  | ['z'] => true
  | c :: rest => (c = '+' || c = '-') && readHourMinute? rest = some []

/-- A date, a time, or both with a letter or a space between them. -/
def isDatetime (cs : List Char) : Bool :=
  isDate cs || readTime? cs = some [] ||
    match cs.drop 10 with
    | c :: rest =>
      isDate (cs.take 10) && (c = 'T' || c = 't' || c = ' ') && (readTime? rest).any isOffset
    | [] => false

/-- The value that a word spells. -/
def ofWord? (cs : List Char) : Option Toml :=
  if cs = "true".toList || cs = "false".toList then some .boolean
  else if isInteger cs then some .integer
  else if isFloat cs then some .float
  else if isDatetime cs then some .datetime
  else none

/-- A word and what follows it; a time may follow its date after a space. -/
def takeWord (cs : List Char) : List Char × List Char :=
  let word := cs.takeWhile isWordChar
  match cs.dropWhile isWordChar with
  | ' ' :: c :: rest =>
    if isDate word && c.isDigit then
      (word ++ ' ' :: (c :: rest).takeWhile isWordChar, (c :: rest).dropWhile isWordChar)
    else (word, ' ' :: c :: rest)
  | rest => (word, rest)

def readWord? (cs : List Char) : Option (Toml × List Char) :=
  (ofWord? (takeWord cs).1).map (·, (takeWord cs).2)

end DevEnv.Toml
