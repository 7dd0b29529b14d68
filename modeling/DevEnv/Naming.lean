import DevEnv.Text.Path

/-! The working directory and the name of an environment, both taken from the directory it is started for.
Neither leaves the home directory or the characters that a container's name may have. -/
namespace DevEnv.Naming

/-- The home directory of the user inside a container. -/
def home : String := "/home/envd"

/-- The directory inside a container that stands for a directory of the host. -/
def workdir (buildContext : String) : String :=
  match Text.Path.last buildContext with
  | some base => home ++ "/" ++ base
  | none => home

def maxLength : Nat := 30

/-- Characters that may follow others in a name. -/
def isJoint (c : Char) : Bool := c = '_' || c = '.' || c = '-'

/-- Keeps the runs that start with a letter or digit and go on with letters, digits and joints. -/
def keepRuns : Bool → List Char → List Char
  | _, [] => []
  | inRun, c :: rest =>
    if c.isAlphanum then c :: keepRuns true rest
    else if inRun && isJoint c then c :: keepRuns true rest
    else keepRuns false rest

/-- The last part of a directory, empty if there is none. -/
def base (dir : String) : String := (Text.Path.last dir).getD ""

/-- The name of an environment for a directory; there is none if no run is left. -/
def ofDirectory? (dir : String) : Option String :=
  let kept := keepRuns false (base dir).toList
  if kept.isEmpty then none else some (String.ofList (kept.take maxLength))

end DevEnv.Naming
