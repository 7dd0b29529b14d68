import DevEnv.Text.Blank
import DevEnv.Time.Span

/-! Points in time as date and time of day in UTC, in the form of RFC 3339.
A leap second is kept as the second before it with a billion nanoseconds more. -/
namespace DevEnv

/-- Seconds since the start of 1970 and nanoseconds of the second. -/
structure Timestamp where
  seconds : Int
  nanos : Nat
  deriving DecidableEq, Repr, Inhabited

namespace Timestamp

/-- A day of the calendar. -/
structure Day where
  year : Int
  month : Nat
  day : Nat
  deriving DecidableEq, Repr

def isLeapYear (y : Int) : Bool := y % 4 = 0 && (y % 100 ≠ 0 || y % 400 = 0)

def daysInMonth (y : Int) (m : Nat) : Nat :=
  if m = 2 then if isLeapYear y then 29 else 28
  else if m = 4 || m = 6 || m = 9 || m = 11 then 30 else 31

/-- The years that can be told apart. -/
def firstYear : Int := -262143
def lastYear : Int := 262142

def Day.isValid (d : Day) : Bool :=
  firstYear ≤ d.year && d.year ≤ lastYear && 1 ≤ d.month && d.month ≤ 12 && 1 ≤ d.day &&
    d.day ≤ daysInMonth d.year d.month

/-- The number of a day, counted from the first of January 1970. The year is taken to begin in March. -/
def Day.number (d : Day) : Int :=
  let y := if d.month ≤ 2 then d.year - 1 else d.year
  let m : Int := if d.month ≤ 2 then d.month + 9 else d.month - 3
  let era := y.fdiv 400
  let yearOfEra := y - era * 400
  let dayOfYear := (153 * m + 2).fdiv 5 + d.day - 1
  era * 146097 + yearOfEra * 365 + yearOfEra.fdiv 4 - yearOfEra.fdiv 100 + dayOfYear - 719468

/-- The day with a number. -/
def Day.ofNumber (n : Int) : Day :=
  let z := n + 719468
  let era := z.fdiv 146097
  let dayOfEra := z - era * 146097
  let yearOfEra := (dayOfEra - dayOfEra.fdiv 1460 + dayOfEra.fdiv 36524 - dayOfEra.fdiv 146096).fdiv 365
  let dayOfYear := dayOfEra - (365 * yearOfEra + yearOfEra.fdiv 4 - yearOfEra.fdiv 100)
  let m := (5 * dayOfYear + 2).fdiv 153
  let month := if m < 10 then m + 3 else m - 9
  let year := yearOfEra + era * 400
  ⟨if month ≤ 2 then year + 1 else year, month.toNat, (dayOfYear - (153 * m + 2).fdiv 5 + 1).toNat⟩

def day (t : Timestamp) : Day := .ofNumber (t.seconds.fdiv 86400)

/-- The second of its day. -/
def secondOfDay (t : Timestamp) : Nat := (t.seconds.fmod 86400).toNat

/-- A number with zeros in front up to a width. -/
def padded (width n : Nat) : List Char :=
  List.replicate (width - (Text.digits n).length) '0' ++ Text.digits n

/-- A year in four digits, with its sign if they do not do. -/
def yearChars (y : Int) : List Char :=
  if 0 ≤ y && y ≤ 9999 then padded 4 y.toNat
  else (if y < 0 then '-' else '+') :: padded 4 y.natAbs

def dateChars (d : Day) : List Char := yearChars d.year ++ '-' :: (padded 2 d.month ++ '-' :: padded 2 d.day)

/-- The fraction of a second in as few groups of three digits as show it. -/
def fractionChars (nanos : Nat) : List Char :=
  if nanos = 0 then []
  else if nanos % Span.milli = 0 then '.' :: padded 3 (nanos / Span.milli)
  else if nanos % Span.micro = 0 then '.' :: padded 6 (nanos / Span.micro)
  else '.' :: padded 9 nanos

def hourMinute (t : Timestamp) : List Char :=
  padded 2 (t.secondOfDay / 3600) ++ ':' :: padded 2 (t.secondOfDay / 60 % 60)

/-- Date and time with a Z for UTC. -/
def render (t : Timestamp) : String :=
  let second := t.secondOfDay % 60 + t.nanos / Span.second
  String.ofList (dateChars t.day ++ 'T' :: (t.hourMinute ++ ':' :: (padded 2 second ++
    fractionChars (t.nanos % Span.second) ++ ['Z'])))

/-- Date, hour and minute, for listings. -/
def renderMinute (t : Timestamp) : String := String.ofList (dateChars t.day ++ ' ' :: t.hourMinute)

/-- The point so many seconds after the start of 1970, if its year can be told. -/
def ofSeconds? (seconds : Int) : Option Timestamp :=
  let t : Timestamp := ⟨seconds, 0⟩
  if firstYear ≤ t.day.year && t.day.year ≤ lastYear then some t else none

/-- Date and time of day as given, with the seconds by which the place is ahead of UTC. -/
structure Local where
  day : Day
  hour : Nat
  minute : Nat
  second : Nat
  nanos : Nat
  ahead : Int

/-- The point in UTC; second 60 is a leap second. -/
def ofLocal? (l : Local) : Option Timestamp :=
  if l.day.isValid && l.hour < 24 && l.minute < 60 && l.second ≤ 60 && l.ahead.natAbs < 86400 then
    let second := if l.second = 60 then 59 else l.second
    let nanos := if l.second = 60 then l.nanos + Span.second else l.nanos
    let seconds := l.day.number * 86400 + l.hour * 3600 + l.minute * 60 + second - l.ahead
    (ofSeconds? seconds).map fun t => { t with nanos }
  else none

/-- A number of between `least` and `most` digits, as long as it goes. -/
def readDigits (least most : Nat) (cs : List Char) : Option (Nat × List Char) :=
  let run := (cs.takeWhile Char.isDigit).take most
  if run.length < least then none else (Text.value? run).map fun n => (n, cs.drop run.length)

/-- Passes over one character. -/
def readMark (c : Char) : List Char → Option (List Char)
  | x :: rest => if x = c then some rest else none
  | [] => none

/-- A point with digits of a second behind it, of which nine count. -/
def readFraction : List Char → Option (Nat × List Char)
  | '.' :: rest =>
    let run := rest.takeWhile Char.isDigit
    if run.isEmpty then none
    else some ((Text.value? (run.take 9 ++ List.replicate (9 - run.length) '0')).getD 0, rest.dropWhile Char.isDigit)
  | cs => some (0, cs)

/-- How far a place is ahead of UTC: a letter for not at all, or a sign, hours, a separation and minutes. -/
def readAhead (separation : List Char → Option (List Char)) : List Char → Option (Int × List Char)
  | [] => none
  | c :: rest =>
    if c = 'Z' || c = 'z' then some (0, rest)
    else if c = '+' || c = '-' || c.toNat = 0x2212 then do
      let (hours, rest) ← readDigits 2 2 rest
      let rest ← separation rest
      let (minutes, rest) ← readDigits 2 2 rest
      if minutes < 60 then
        let ahead : Int := hours * 3600 + minutes * 60
        some (if c = '+' then ahead else -ahead, rest)
      else none
    else none

/-- The letter or the space between date and time. -/
def readBetween : List Char → Option (List Char)
  | c :: rest => if c = 'T' || c = 't' || c = ' ' then some rest else none
  | [] => none

/-- Reads RFC 3339 by the letter. -/
def readStrict (s : String) : Option Timestamp := do
  let (year, cs) ← readDigits 4 4 s.toList
  let cs ← readMark '-' cs
  let (month, cs) ← readDigits 2 2 cs
  let cs ← readMark '-' cs
  let (day, cs) ← readDigits 2 2 cs
  let cs ← readBetween cs
  let (hour, cs) ← readDigits 2 2 cs
  let cs ← readMark ':' cs
  let (minute, cs) ← readDigits 2 2 cs
  let cs ← readMark ':' cs
  let (second, cs) ← readDigits 2 2 cs
  let (nanos, cs) ← readFraction cs
  let (ahead, cs) ← readAhead (readMark ':') cs
  if cs.isEmpty then ofLocal? ⟨⟨year, month, day⟩, hour, minute, second, nanos, ahead⟩ else none

/-- A year of up to four digits, or of any number of them after a sign. -/
def readYear (cs : List Char) : Option (Int × List Char) :=
  match cs with
  | '-' :: rest => (readDigits 1 rest.length rest).map fun p => (-(p.1 : Int), p.2)
  | '+' :: rest => (readDigits 1 rest.length rest).map fun p => (p.1, p.2)
  | cs => (readDigits 1 4 cs).map fun p => (p.1, p.2)

/-- The distance from UTC in a relaxed form: by its name, or without the colon. -/
def readAheadRelaxed (cs : List Char) : Option (Int × List Char) :=
  if (cs.take 3).map Char.toUpper = ['U', 'T', 'C'] then some (0, cs.drop 3)
  else readAhead (fun cs => some (cs.dropWhile fun c => c = ':' || Text.isBlank c)) cs

/-- Reads RFC 3339 with blanks between the parts, numbers without zeros in front, and years with a sign. -/
def readRelaxed (s : String) : Option Timestamp := do
  let (year, cs) ← readYear (Text.trimFront s.toList)
  let cs ← readMark '-' (Text.trimFront cs)
  let (month, cs) ← readDigits 1 2 (Text.trimFront cs)
  let cs ← readMark '-' (Text.trimFront cs)
  let (day, cs) ← readDigits 1 2 (Text.trimFront cs)
  let cs ← readBetween cs
  let (hour, cs) ← readDigits 1 2 (Text.trimFront cs)
  let cs ← readMark ':' (Text.trimFront cs)
  let (minute, cs) ← readDigits 1 2 (Text.trimFront cs)
  let cs ← readMark ':' (Text.trimFront cs)
  let (second, cs) ← readDigits 1 2 (Text.trimFront cs)
  let (nanos, cs) ← readFraction cs
  let (ahead, cs) ← readAheadRelaxed (Text.trimFront cs)
  if (Text.trimFront cs).isEmpty then ofLocal? ⟨⟨year, month, day⟩, hour, minute, second, nanos, ahead⟩ else none

end Timestamp
end DevEnv
