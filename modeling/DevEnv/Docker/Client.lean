import DevEnv.Docker.Arguments
import DevEnv.Docker.Inspect
import DevEnv.Text.Utf8

/-! Calls to a container runtime as runs of the docker command. A run that fails is understood by its complaint. -/
namespace DevEnv.Docker

open DevEnv.Runtime (Call)

/-- A command to run, without input. -/
structure Command where
  binary : String
  arguments : List String
  deriving DecidableEq, Repr

/-- What a command that ran has left. -/
structure Command.Output where
  succeeded : Bool
  out : List UInt8
  complaint : List UInt8
  deriving DecidableEq, Repr

/-- Why a command could not be run. -/
inductive Command.Failure where
  | missing (reason : String)
  | refused (reason : String)
  deriving DecidableEq, Repr

def interface : Interface := ⟨Command, fun _ => Except Command.Failure Command.Output⟩

/-- The command that is run unless another one is asked for. -/
def usualBinary : String := "docker"

abbrev Run (α : Type) : Type := ExceptT Runtime.Error (Program interface) α

/-- The end mark of a text, which no command can be given. -/
def endMark : Char := Char.ofNat 0

/-- Runs the command for a target and results in what it printed. -/
def run (binary target : String) (arguments : List String) : Run String := do
  if (binary :: arguments).any (·.toList.contains endMark) then
    throw (.io "an argument holds the end mark of a text")
  else
    match ← ExceptT.lift (Program.query (I := interface) ⟨binary, arguments⟩) with
    | .error (.missing reason) => throw (.unavailable s!"{binary}: {reason}")
    | .error (.refused reason) => throw (.io reason)
    | .ok output =>
      if output.succeeded then return Text.Utf8.decode output.out
      else throw (.ofComplaint target (Text.Utf8.decode output.complaint))

/-- The identifiers printed one to a line, each once. -/
def identifiers (printed : String) : List String :=
  (((Text.pieces '\n' printed).map Text.trim).filter (· ≠ "")).eraseDups

/-- The objects with a label: their identifiers first, then what there is to know about them. -/
def listed {α : Type} (binary : String) (find inspect : List String) (label : String)
    (read : String → Except Runtime.Error (List α)) : Run (List α) := do
  let ids := identifiers (← run binary "" (find ++ ["--filter", s!"label={label}"]))
  if ids.isEmpty then return []
  else
    let printed ← run binary "" (inspect ++ ids)
    ExceptT.mk (pure (read printed))

/-- The first object read; an empty list means that there is none. -/
def first {α : Type} (target : String) (read : Except Runtime.Error (List α)) : Run α :=
  match read with
  | .ok (a :: _) => pure a
  | .ok [] => throw (.notFound target)
  | .error e => throw e

/-- A command that is run for its effect. -/
def effect (binary target : String) (arguments : List String) : Run Unit := do
  let _ ← run binary target arguments

/-- A call as runs of the docker command. -/
def call (binary : String) : (c : Call) → Run c.Reply
  | .info => do
    let printed ← run binary "" ["info", "--format", "\x7b\x7bjson .\x7d\x7d"]
    ExceptT.mk (pure (readInfo printed))
  | .inspect name => do first name (readContainers (← run binary name ["container", "inspect", name]))
  | .create spec => do
    let id := Text.trim (← run binary spec.name (createArguments spec))
    if id = "" then throw (.unparsable "docker create printed no container id") else return ⟨id⟩
  | .start name => effect binary name ["start", name]
  | .pause name => effect binary name ["pause", name]
  | .unpause name => effect binary name ["unpause", name]
  | .kill name => effect binary name ["kill", "--signal", "KILL", name]
  | .remove name forced => effect binary name (["rm"] ++ (if forced then ["--force"] else []) ++ [name])
  | .list label =>
    listed binary ["ps", "--all", "--quiet", "--no-trunc"] ["container", "inspect"] label readContainers
  | .inspectImage reference => do first reference (readImages (← run binary reference ["image", "inspect", reference]))
  | .listImages label => listed binary ["images", "--quiet", "--no-trunc"] ["image", "inspect"] label readImages
  | .removeImage reference => effect binary reference ["rmi", reference]

end DevEnv.Docker
