import DevEnv.Toml.Quoted
import DevEnv.Toml.Scalar

/-! Reading TOML documents, line by line. A document is refused as soon as a key is given twice. -/
namespace DevEnv.Toml

def skipBlank (cs : List Char) : List Char := cs.dropWhile isBlank

/-- The characters that may follow after a comment mark. -/
def isCommentChar (c : Char) : Bool := isPlain c

/-- What follows the end of a line; the end of the document ends one too. -/
def lineEnd? : List Char → Option (List Char)
  | [] => some []
  | '\n' :: rest => some rest
  | '\r' :: '\n' :: rest => some rest
  | _ => none

/-- What follows a line that has nothing but a comment left. -/
def endLine? (cs : List Char) : Option (List Char) :=
  match skipBlank cs with
  | '#' :: rest => lineEnd? (rest.dropWhile isCommentChar)
  | rest => lineEnd? rest

/-- What follows blanks, line ends and comments. The fuel bounds the number of lines. -/
def skipLines : Nat → List Char → List Char
  | 0, cs => cs
  | fuel + 1, cs =>
    match skipBlank cs with
    | [] => []
    | c :: rest =>
      if c = '#' || c = '\r' || c = '\n' then
        match endLine? (c :: rest) with
        | some rest => skipLines fuel rest
        | none => c :: rest
      else c :: rest

def isBareKeyChar (c : Char) : Bool := c.isAlphanum || c = '_' || c = '-'

/-- One key, bare or as a string on one line. -/
def readKeyPart? : List Char → Option (String × List Char)
  | '"' :: rest => (scanBasic rest).map fun p => (String.ofList p.1, p.2)
  | '\'' :: rest => (scanLiteral rest).map fun p => (String.ofList p.1, p.2)
  | cs =>
    let key := cs.takeWhile isBareKeyChar
    if key.isEmpty then none else some (String.ofList key, cs.drop key.length)

/-- The deepest nesting of values, and the most keys with dots between them. -/
def depthLimit : Nat := 79

/-- Keys with dots between them and blanks around them: all but the last, the last, and what follows. -/
def readKey? : Nat → List Char → Option (List String × String × List Char)
  | 0, _ => none
  | fuel + 1, cs => do
    let (key, rest) ← readKeyPart? (skipBlank cs)
    match skipBlank rest with
    | '.' :: rest => do
      let (path, last, rest) ← readKey? fuel rest
      return (key :: path, last, rest)
    | rest => return ([], key, rest)

mutual

/-- A value, with room for so many levels below it. -/
def readValue? : Nat → Nat → List Char → Option (Toml × List Char)
  | 0, _, _ => none
  | fuel + 1, depth, cs =>
    match cs with
    | '[' :: rest =>
      if depth = 0 then none
      else match skipLines (rest.length + 1) rest with
        | ']' :: rest => some (.array [], rest)
        | rest => (readItems? fuel (depth - 1) rest).map fun p => (.array p.1, p.2)
    | '{' :: rest =>
      if depth = 0 then none
      else match skipBlank rest with
        | '}' :: rest => some (.table .braces [], rest)
        | rest => (readPairs? fuel (depth - 1) [] rest).map fun p => (.table .braces p.1, p.2)
    | '"' :: _ => (readString? cs).map fun p => (.string (String.ofList p.1), p.2)
    | '\'' :: _ => (readString? cs).map fun p => (.string (String.ofList p.1), p.2)
    | _ => readWord? cs

/-- At least one value, up to the closing bracket; a comma may stand before it. -/
def readItems? : Nat → Nat → List Char → Option (List Toml × List Char)
  | 0, _, _ => none
  | fuel + 1, depth, cs => do
    let (item, rest) ← readValue? fuel depth cs
    match skipLines (rest.length + 1) rest with
    | ']' :: rest => return ([item], rest)
    | ',' :: rest =>
      match skipLines (rest.length + 1) rest with
      | ']' :: rest => return ([item], rest)
      | rest => do
        let (items, rest) ← readItems? fuel depth rest
        return (item :: items, rest)
    | _ => none

/-- At least one key with its value, up to the closing brace, on one line. -/
def readPairs? : Nat → Nat → Members → List Char → Option (Members × List Char)
  | 0, _, _, _ => none
  | fuel + 1, depth, members, cs => do
    let (path, key, rest) ← readKey? depthLimit cs
    match rest with
    | '=' :: rest => do
      let (value, rest) ← readValue? fuel depth (skipBlank rest)
      let members ← assign path key value members
      match skipBlank rest with
      | '}' :: rest => return (members, rest)
      | ',' :: rest => readPairs? fuel depth members rest
      | _ => none
    | _ => none

end

/-- The lines of a document, under the header that was opened last. -/
def readLines? : Nat → List String → Members → List Char → Option Members
  | 0, _, _, _ => none
  | fuel + 1, opened, members, cs =>
    match skipBlank cs with
    | [] => some members
    | '[' :: '[' :: rest => do
      let (path, key, rest) ← readKey? depthLimit rest
      match rest with
      | ']' :: ']' :: rest => do
        readLines? fuel (path ++ [key]) (← openFurther path key members) (← endLine? rest)
      | _ => none
    | '[' :: rest => do
      let (path, key, rest) ← readKey? depthLimit rest
      match rest with
      | ']' :: rest => do readLines? fuel (path ++ [key]) (← openTable path key members) (← endLine? rest)
      | _ => none
    | c :: rest =>
      if c = '#' || c = '\r' || c = '\n' then do readLines? fuel opened members (← endLine? (c :: rest))
      else do
        let (path, key, rest) ← readKey? depthLimit (c :: rest)
        match rest with
        | '=' :: rest => do
          let (value, rest) ← readValue? (rest.length + 1) depthLimit (skipBlank rest)
          readLines? fuel opened (← assignUnder opened path key value members) (← endLine? rest)
        | _ => none

/-- A mark of the byte order, which may stand in front of a document. -/
def byteOrderMark : Char := Char.ofNat 0xFEFF

/-- The top-level table of a document. -/
def read? (s : String) : Option Members :=
  match s.toList with
  | [] => some []
  | c :: rest =>
    let cs := if c = byteOrderMark then rest else c :: rest
    readLines? (cs.length + 1) [] [] cs

end DevEnv.Toml
