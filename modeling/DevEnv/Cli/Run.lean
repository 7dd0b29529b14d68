import DevEnv.Cli.Report
import DevEnv.Cli.Up
import DevEnv.Context.File
import DevEnv.ControlPlane

/-! One run of the program: arguments in, texts and an exit code out. -/
namespace DevEnv.Cli

/-- What a run takes from its surroundings without asking. -/
structure Setting where
  home : Option String
  /-- The docker command, unless the arguments name another one. -/
  dockerBinary : Option String
  coloured : Bool
  patience : Engine.Patience

/-- What a run leaves behind. -/
structure Outcome where
  code : UInt8
  out : String := ""
  err : String := ""
  deriving DecidableEq, Repr

/-- The context that a run works in. -/
def contextOf (s : Setting) (name : Option String) : Step Context := do
  let path ← Step.ofExcept .config (Contexts.file s.home)
  let contexts ← Step.ofExcept .config (Contexts.ofFile (← Step.ask (.read path)))
  Step.ofExcept .config (contexts.pick name)

variable {I : Interface}

/-- JSON if it is asked for, or lines otherwise. -/
def shown (json : Bool) (value : Json) (lines : List String) : String := if json then jsonText value else textOf lines

def lsText (s : Setting) (json : Bool) (e : Engine I) : Action I String := do
  let es ← e.environments
  return shown json (Json.ofList Environment.toJson es) (environmentTable s.coloured es)

def imagesText (json : Bool) (e : Engine I) : Action I String := do
  let is ← e.images
  return shown json (Json.ofList Image.toJson is) (imageTable is)

def describeText (s : Setting) (json : Bool) (name : String) (e : Engine I) : Action I String := do
  let d : Description := {
    environment := ← e.environment name
    ports := ← e.ports name
    dependency := ← e.dependency name }
  return shown json d.toJson (d.lines s.coloured)

def depsText (json : Bool) (name : String) (image : Bool) (e : Engine I) : Action I String := do
  let d ← if image then e.imageDependency name else e.dependency name
  return shown json d.toJson (packageTable name d)

def portsText (json : Bool) (name : String) (e : Engine I) : Action I String := do
  let bindings ← e.ports name
  return shown json (Json.ofList PortBinding.toJson bindings) (portTable bindings)

/-- The text on an operation that may have had nothing to do. -/
def outcomeText (json : Bool) (name key yes no : String) (operation : Action I (Option String)) : Action I String := do
  let done := (← operation).isSome
  return shown json (outcomeJson name key done) [if done then yes else no]

def upText (json : Bool) (o : UpOptions) (p : UpOptions.Prepared) (e : Engine I) : Action I String := do
  let started ← o.start p e
  return shown json started.toJson (startedLines started)

def destroyText (json : Bool) (name : String) (e : Engine I) : Action I String :=
  outcomeText json name "removed" s!"destroyed environment '{name}'"
    s!"environment '{name}' does not exist, nothing to destroy" (e.destroy name)

def pauseText (json : Bool) (name : String) (e : Engine I) : Action I String :=
  outcomeText json name "changed" s!"paused '{name}'" s!"'{name}' is already paused" (e.pause name)

def resumeText (json : Bool) (name : String) (e : Engine I) : Action I String :=
  outcomeText json name "changed" s!"resumed '{name}'" s!"'{name}' is not paused" (e.resume name)

/-- The text that an operation on a control plane prints. -/
def printed (s : Setting) (plane : ControlPlane) (text : (I : Interface) → Engine I → Action I String) : Step String :=
  ExceptT.mk (plane.perform s.patience text)

/-- Performs a command in its context and results in what it prints. -/
def perform (s : Setting) (i : Invocation) : Step String := do
  let json := i.shared.json
  let context ← contextOf s i.shared.context
  let plane ← Step.ofExcept id
    (ControlPlane.ofContext context i.shared.runtime (i.shared.dockerBinary <|> s.dockerBinary))
  match i.command with
  | .up o => do
    let p ← o.prepare
    printed s plane fun _ e => upText json o p e
  | .destroy name => printed s plane fun _ e => destroyText json name e
  | .pause name => printed s plane fun _ e => pauseText json name e
  | .resume name => printed s plane fun _ e => resumeText json name e
  | .ls => printed s plane fun _ e => lsText s json e
  | .images => printed s plane fun _ e => imagesText json e
  | .describe name => printed s plane fun _ e => describeText s json name e
  | .deps name image => printed s plane fun _ e => depsText json name image e
  | .ports name => printed s plane fun _ e => portsText json name e

/-- One run with the given arguments. -/
def run (s : Setting) (arguments : List String) : Program World.interface Outcome :=
  match Request.read arguments with
  | .version => return { code := 0, out := versionText }
  | .help true => return { code := 0, out := helpText }
  | .help false => return { code := 2, err := helpText }
  | .fault f => return { code := 2, err := s!"error: {f.message}\n" }
  | .invoke i => do
    match ← (perform s i).run with
    | .ok out => return { code := 0, out }
    | .error e => return { code := exitCode e.kind, err := s!"error: {e.message}\n" }

end DevEnv.Cli
