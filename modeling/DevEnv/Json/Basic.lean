import DevEnv.Json.Number

/-! JSON texts as trees of what is written: numbers keep their fraction and exponent, strings their escapes.
Whether a part has a value is asked only of the parts that are used. -/
namespace DevEnv

/-- A JSON text; strings and keys are kept as they stand between their quotes. -/
inductive Json where
  | null
  | bool (b : Bool)
  | number (n : Json.Number)
  | string (written : List Char)
  | array (items : List Json)
  | object (members : List (List Char × Json))
  deriving Repr, Inhabited

end DevEnv
