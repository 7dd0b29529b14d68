import DevEnv.Json.Basic
import DevEnv.Json.Escape

/-! Writing JSON texts, on one line without blanks or over indented lines. -/
namespace DevEnv.Json

def ofString (s : String) : Json := .string (escape s.toList)

def ofInt (i : Int) : Json := .number (.ofInt i)

def ofNat (n : Nat) : Json := ofInt n

/-- An object with the given keys and values, in this order. -/
def record (fields : List (String × Json)) : Json :=
  .object (fields.map fun f => (escape f.1.toList, f.2))

def quoted (written : List Char) : List Char := '"' :: (written ++ ['"'])

def Number.print (n : Number) : List Char :=
  (if n.negative then ['-'] else []) ++ Text.digits n.whole ++
    (match n.fraction with
      | some ds => '.' :: ds
      | none => []) ++
    match n.exponent with
      | some e => 'e' :: Text.intChars e
      | none => []

mutual

/-- A value on one line, without blanks. -/
def compact : Json → List Char
  | .null => ['n', 'u', 'l', 'l']
  | .bool true => ['t', 'r', 'u', 'e']
  | .bool false => ['f', 'a', 'l', 's', 'e']
  | .number n => n.print
  | .string written => quoted written
  | .array [] => ['[', ']']
  | .array (item :: items) => '[' :: (compact item ++ compactItems items)
  | .object [] => ['{', '}']
  | .object ((key, value) :: members) =>
    '{' :: (quoted key ++ ':' :: (compact value ++ compactMembers members))

/-- The further items of an array and its end. -/
def compactItems : List Json → List Char
  | [] => [']']
  | item :: items => ',' :: (compact item ++ compactItems items)

/-- The further members of an object and its end. -/
def compactMembers : List (List Char × Json) → List Char
  | [] => ['}']
  | (key, value) :: members => ',' :: (quoted key ++ ':' :: (compact value ++ compactMembers members))

end

def indent (depth : Nat) : List Char := '\n' :: List.replicate (2 * depth) ' '

mutual

/-- A value over several lines, two spaces for each level. -/
def pretty (depth : Nat) : Json → List Char
  | .array (item :: items) => '[' :: (indent (depth + 1) ++ pretty (depth + 1) item ++ prettyItems depth items)
  | .object ((key, value) :: members) =>
    '{' :: (indent (depth + 1) ++ quoted key ++ ':' :: ' ' :: pretty (depth + 1) value ++
      prettyMembers depth members)
  | value => compact value

def prettyItems (depth : Nat) : List Json → List Char
  | [] => indent depth ++ [']']
  | item :: items => ',' :: (indent (depth + 1) ++ pretty (depth + 1) item ++ prettyItems depth items)

def prettyMembers (depth : Nat) : List (List Char × Json) → List Char
  | [] => indent depth ++ ['}']
  | (key, value) :: members =>
    ',' :: (indent (depth + 1) ++ quoted key ++ ':' :: ' ' :: pretty (depth + 1) value ++
      prettyMembers depth members)

end

mutual

/-- A value with the members of all its objects in the order of their keys. -/
def sorted : Json → Json
  | .array items => .array (sortedItems items)
  | .object members => .object ((sortedMembers members).mergeSort fun a b => a.1 ≤ b.1)
  | value => value

def sortedItems : List Json → List Json
  | [] => []
  | item :: items => sorted item :: sortedItems items

def sortedMembers : List (List Char × Json) → List (List Char × Json)
  | [] => []
  | (key, value) :: members => (key, sorted value) :: sortedMembers members

end

def compactText (j : Json) : String := String.ofList (compact j)

def prettyText (j : Json) : String := String.ofList (pretty 0 j)

end DevEnv.Json
