import DevEnv.Text.Utf8

/-! What is found under the path of a file: its bytes, nothing, or something that cannot be read. -/
namespace DevEnv.File

/-- Why a file could not be read. -/
inductive Failure where
  | missing (reason : String)
  | refused (reason : String)
  deriving DecidableEq, Repr

abbrev Contents : Type := Except Failure (List UInt8)

/-- The text of a file. -/
def text : Contents → Except Failure String
  | .ok bytes =>
    match Text.Utf8.decode? bytes with
    | some text => .ok text
    | none => .error (.refused "the file is not a text in UTF-8")
  | .error e => .error e

end DevEnv.File
