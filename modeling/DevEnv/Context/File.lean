import DevEnv.Context
import DevEnv.File
import DevEnv.Toml.Reader

/-! The file that keeps a user's contexts, a TOML document.
Without a file there are the contexts of a user who has set up none. -/
namespace DevEnv

def Toml.asString? : Toml → Option String
  | string s => some s
  | _ => none

/-- The values of a record's fields, from a table or from the array of them in order. -/
def Toml.fields? (keys : List String) : Toml → Option (List (Option Toml))
  | table _ members => some (keys.map fun key => members.lookup key)
  | array items => some ((items.map some ++ keys.map fun _ => none).take keys.length)
  | _ => none

def Toml.items? : Toml → Option (List Toml)
  | array items => some items
  | tables items => some (items.reverse.map (table .header))
  | _ => none

def Toml.isEmpty : Toml → Bool
  | table _ members => members.isEmpty
  | array items => items.isEmpty
  | _ => false

/-- A value that may be left out. -/
def Toml.optional? {α : Type} (value? : Toml → Option α) : Option Toml → Option (Option α)
  | some t => (value? t).map some
  | none => some none

/-- A runner by its name, which may also be the key of something empty. -/
def Runner.ofToml? : Toml → Option Runner
  | .string name => named? name
  | .table _ [(name, content)] => if content.isEmpty then named? name else none
  | _ => none

def Context.ofToml? (t : Toml) : Option Context := do
  match ← t.fields? ["name", "runner", "runner_address", "login_name", "jwt_token"] with
  | [name, runner, address, login, token] =>
    return {
      name := ← name.bind Toml.asString?
      runner := (← Toml.optional? Runner.ofToml? runner).getD .docker
      address := ← Toml.optional? Toml.asString? address
      login := ← Toml.optional? Toml.asString? login
      token := ← Toml.optional? Toml.asString? token }
  | _ => none

namespace Contexts

/-- The contexts of a document, which holds nothing else. -/
def ofToml? (members : Toml.Members) : Option Contexts := do
  if members.all fun m => m.1 = "current" || m.1 = "context" then
    let listed ← Toml.optional? Toml.items? (members.lookup "context")
    return {
      current := ← (members.lookup "current").bind Toml.asString?
      contexts := ← (listed.getD []).mapM Context.ofToml? }
  else none

/-- A line of the file. -/
def line (key value : String) : String := s!"{key} = {String.ofList (Toml.writeString value.toList)}\n"

def optionalLine (key : String) : Option String → String
  | some value => line key value
  | none => ""

def contextLines (c : Context) : String :=
  "\n[[context]]\n" ++ line "name" c.name ++ line "runner" c.runner.name ++
    optionalLine "runner_address" c.address ++ optionalLine "login_name" c.login ++ optionalLine "jwt_token" c.token

/-- The text of the file. -/
def text (cs : Contexts) : String :=
  line "current" cs.current ++
    if cs.contexts.isEmpty then "context = []\n" else String.join (cs.contexts.map contextLines)

/-- The contexts of a text; the one in use has to be among them. -/
def ofText (text : String) : Except Error Contexts :=
  match (Toml.read? text).bind ofToml? with
  | some cs => cs.check
  | none => .error .malformed

/-- The contexts of a file as it was found. -/
def ofFile (found : File.Contents) : Except Error Contexts :=
  match File.text found with
  | .ok text => ofText text
  | .error (.missing _) => .ok initial
  | .error (.refused reason) => .error (.inaccessible reason)

/-- The context of a name, or the one in use. -/
def pick (cs : Contexts) (name : Option String) : Except Error Context :=
  match name with
  | some name => cs.get name
  | none => cs.inUse

end Contexts

end DevEnv
