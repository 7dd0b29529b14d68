import DevEnv.Json.Escape

/-! Strings of a document in their four forms: with or without escapes, on one line or on several.
A string is written in the plainest form that can hold it. -/
namespace DevEnv.Toml

def isBlank (c : Char) : Bool := c = ' ' || c = '\t'

/-- Characters that stand for themselves in every form; quotes, backslashes and line ends are left to the form. -/
def isPlain (c : Char) : Bool := c = '\t' || (0x20 ≤ c.toNat && c.toNat ≠ 0x7F)

/-- The character that an escape of one letter stands for. -/
def escaped? (c : Char) : Option Char :=
  match c with
  | 'b' => some (Char.ofNat 8)
  | 't' => some '\t'
  | 'n' => some '\n'
  | 'f' => some (Char.ofNat 12)
  | 'r' => some '\r'
  | '"' => some '"'
  | '\\' => some '\\'
  | _ => none

/-- The character with a number in hexadecimal digits. -/
def numbered? (ds : List Char) : Option Char := do
  let values ← ds.mapM Json.hexValue?
  let n := values.foldl (16 * · + ·) 0
  if n.isValidChar then some (Char.ofNat n) else none

abbrev Scan : Type := Option (List Char × List Char)

/-- A character in front of what is scanned after it. -/
def Scan.cons (c : Option Char) (s : Scan) : Scan :=
  match c, s with
  | some c, some (cs, rest) => some (c :: cs, rest)
  | _, _ => none

/-- The rest of a string with escapes on one line. -/
def scanBasic : List Char → Scan
  | [] => none
  | '"' :: rest => some ([], rest)
  | '\\' :: 'u' :: a :: b :: c :: d :: rest => Scan.cons (numbered? [a, b, c, d]) (scanBasic rest)
  | '\\' :: 'U' :: a :: b :: c :: d :: e :: f :: g :: h :: rest =>
    Scan.cons (numbered? [a, b, c, d, e, f, g, h]) (scanBasic rest)
  | '\\' :: e :: rest => Scan.cons (escaped? e) (scanBasic rest)
  | c :: rest => if isPlain c && c ≠ '\\' then Scan.cons c (scanBasic rest) else none

/-- The rest of a string without escapes on one line. -/
def scanLiteral : List Char → Scan
  | [] => none
  | '\'' :: rest => some ([], rest)
  | c :: rest => if isPlain c then Scan.cons c (scanLiteral rest) else none

/-- What follows the three quotes at the end of a string on several lines; up to two more belong to the string. -/
def closing (quote : Char) (rest : List Char) : List Char × List Char :=
  let extra := (rest.takeWhile (· = quote)).take 2
  (extra, rest.drop extra.length)

/-- Whether a line ends here, apart from blanks. -/
def endsLine (cs : List Char) : Bool :=
  match cs.dropWhile isBlank with
  | '\n' :: _ => true
  | '\r' :: '\n' :: _ => true
  | _ => false

/-- The rest of a string with escapes on several lines. After a backslash at the end of a line,
blanks and line ends are skipped. -/
def scanBasicLines : Bool → List Char → Scan
  | _, [] => none
  | _, '"' :: '"' :: '"' :: rest => some (closing '"' rest)
  | _, '\\' :: 'u' :: a :: b :: c :: d :: rest => Scan.cons (numbered? [a, b, c, d]) (scanBasicLines false rest)
  | _, '\\' :: 'U' :: a :: b :: c :: d :: e :: f :: g :: h :: rest =>
    Scan.cons (numbered? [a, b, c, d, e, f, g, h]) (scanBasicLines false rest)
  | skipping, '\r' :: '\n' :: rest =>
    if skipping then scanBasicLines true rest else Scan.cons '\n' (scanBasicLines false rest)
  | skipping, '\n' :: rest =>
    if skipping then scanBasicLines true rest else Scan.cons '\n' (scanBasicLines false rest)
  | _, '\\' :: e :: rest =>
    if isBlank e || e = '\r' || e = '\n' then
      if endsLine (e :: rest) then scanBasicLines true (e :: rest) else none
    else Scan.cons (escaped? e) (scanBasicLines false rest)
  | skipping, c :: rest =>
    if skipping && isBlank c then scanBasicLines true rest
    else if isPlain c && c ≠ '\\' then Scan.cons c (scanBasicLines false rest)
    else none

/-- The rest of a string without escapes on several lines. -/
def scanLiteralLines : List Char → Scan
  | [] => none
  | '\'' :: '\'' :: '\'' :: rest => some (closing '\'' rest)
  | '\r' :: '\n' :: rest => Scan.cons '\n' (scanLiteralLines rest)
  | '\n' :: rest => Scan.cons '\n' (scanLiteralLines rest)
  | c :: rest => if isPlain c then Scan.cons c (scanLiteralLines rest) else none

/-- A line end directly after the opening quotes does not count. -/
def dropFirstLineEnd : List Char → List Char
  | '\n' :: rest => rest
  | '\r' :: '\n' :: rest => rest
  | cs => cs

/-- A string in any form, and what follows. -/
def readString? : List Char → Scan
  | '"' :: '"' :: '"' :: rest => scanBasicLines false (dropFirstLineEnd rest)
  | '"' :: rest => scanBasic rest
  | '\'' :: '\'' :: '\'' :: rest => scanLiteralLines (dropFirstLineEnd rest)
  | '\'' :: rest => scanLiteral rest
  | _ => none

/-- The longest run of a character. -/
def longestRun (q : Char) (cs : List Char) : Nat :=
  (cs.foldl (fun (best, current) c =>
    let current := if c = q then current + 1 else 0
    (max best current, current)) (0, 0)).1

/-- Control characters other than tabs and line feeds, which need an escape. -/
def needsEscape (c : Char) : Bool := (c.toNat < 0x20 && c ≠ '\t' && c ≠ '\n') || c.toNat = 0x7F

/-- Four hexadecimal digits, in capitals. -/
def hex4 (n : Nat) : List Char :=
  let ds := (Nat.toDigits 16 n).map Char.toUpper
  List.replicate (4 - ds.length) '0' ++ ds

/-- Characters with their escapes. On several lines, line feeds stand for themselves, and so do up to two quotes
in a row, of which `seen` have gone by. -/
def escapeText (lines : Bool) : Nat → List Char → List Char
  | _, [] => []
  | seen, c :: rest =>
    if c = '"' then
      if lines && seen < 2 then c :: escapeText lines (seen + 1) rest
      else '\\' :: '"' :: escapeText lines 0 rest
    else
      let shown :=
        if c = '\\' then ['\\', '\\']
        else if c.toNat = 8 then ['\\', 'b']
        else if c = '\t' then ['\\', 't']
        else if c = '\n' then if lines then ['\n'] else ['\\', 'n']
        else if c.toNat = 12 then ['\\', 'f']
        else if c = '\r' then ['\\', 'r']
        else if needsEscape c then '\\' :: 'u' :: hex4 c.toNat
        else [c]
      shown ++ escapeText lines 0 rest

def quotes (q : Char) : List Char := [q, q, q]

/-- A string as it is written. -/
def writeString (s : List Char) : List Char :=
  let odd := s.any needsEscape
  let backslash := s.contains '\\'
  let lineEnd := s.contains '\n'
  let opening := if lineEnd then ['\n'] else []
  if !odd && !backslash && !lineEnd && !s.contains '"' then '"' :: (escapeText false 0 s ++ ['"'])
  else if !odd && !lineEnd && !s.contains '\'' then '\'' :: (s ++ ['\''])
  else if !odd && !backslash && longestRun '"' s ≤ 2 then
    quotes '"' ++ opening ++ escapeText true 0 s ++ quotes '"'
  else if !odd && longestRun '\'' s ≤ 2 then quotes '\'' ++ opening ++ s ++ quotes '\''
  else if lineEnd then quotes '"' ++ opening ++ escapeText true 0 s ++ quotes '"'
  else '"' :: (escapeText false 0 s ++ ['"'])

end DevEnv.Toml
