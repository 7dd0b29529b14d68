/-! One record of comma-separated fields, the form in which a list of options is given on a command line.
A field with a comma or a quote is written in quotes, and a quote inside is written twice. -/
namespace DevEnv.Text.Record

/-- What is wrong with the quotes of a record. -/
inductive Fault
  | unterminated
  | afterQuote (c : Char)
  | bareQuote
  deriving DecidableEq, Repr

/-- Reads on inside a field: bare, or between quotes. The field so far is given backwards. -/
def scan : Bool → List Char → List Char → Except Fault (List (List Char))
  | false, field, [] => .ok [field.reverse]
  | false, field, ',' :: '"' :: rest => (scan true [] rest).map (field.reverse :: ·)
  | false, field, ',' :: rest => (scan false [] rest).map (field.reverse :: ·)
  | false, field, c :: rest => if c = '"' then .error .bareQuote else scan false (c :: field) rest
  | true, _, [] => .error .unterminated
  | true, field, ['"'] => .ok [field.reverse]
  | true, field, '"' :: '"' :: rest => scan true ('"' :: field) rest
  | true, field, '"' :: ',' :: '"' :: rest => (scan true [] rest).map (field.reverse :: ·)
  | true, field, '"' :: ',' :: rest => (scan false [] rest).map (field.reverse :: ·)
  | true, _, '"' :: c :: _ => .error (.afterQuote c)
  | true, field, c :: rest => scan true (c :: field) rest

/-- The fields of a record; an empty record has none. -/
def splitChars : List Char → Except Fault (List (List Char))
  | [] => .ok []
  | '"' :: rest => scan true [] rest
  | cs => scan false [] cs

def split (s : String) : Except Fault (List String) := (splitChars s.toList).map (·.map String.ofList)

/-- Every quote written twice. -/
def doubled : List Char → List Char
  | [] => []
  | c :: rest => if c = '"' then '"' :: '"' :: doubled rest else c :: doubled rest

/-- A field as it is written: in quotes where it has to be. -/
def quoteChars (field : List Char) : List Char :=
  if field.contains ',' || field.contains '"' then '"' :: (doubled field ++ ['"']) else field

def quote (field : String) : String := String.ofList (quoteChars field.toList)

end DevEnv.Text.Record
