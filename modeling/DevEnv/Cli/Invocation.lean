import DevEnv.Cli.Arguments
import DevEnv.Label
import DevEnv.Text.Numeral

/-! The commands of the program and their options. Options that all commands share may stand before or after
the command; those after it take precedence. -/
namespace DevEnv.Cli

/-- The options that all commands share. -/
structure Shared where
  context : Option String := none
  runtime : Option String := none
  dockerBinary : Option String := none
  json : Bool := false
  deriving DecidableEq, Repr

/-- What an environment is started with. -/
structure UpOptions where
  path : String := "."
  name : Option String := none
  image : Option String := none
  graph : Option String := none
  gpus : Option String := none
  gpuCount : Option Int64 := none
  noGpu : Bool := false
  cpus : Option String := none
  cpuSet : Option String := none
  memory : Option String := none
  /-- In mebibytes. -/
  sharedMemory : UInt32 := 0
  mounts : List String := []
  sshPort : UInt16 := 0
  host : String := Label.localhost
  /-- In seconds. -/
  timeout : Nat := 120
  forced : Bool := false
  deriving DecidableEq, Repr

inductive Command where
  | up (o : UpOptions)
  | destroy (name : String)
  | pause (name : String)
  | resume (name : String)
  | ls
  | images
  | describe (name : String)
  | deps (name : String) (image : Bool)
  | ports (name : String)
  deriving DecidableEq, Repr

/-- A command with the options it shares with the others. -/
structure Invocation where
  shared : Shared
  command : Command
  deriving DecidableEq, Repr

def flag (name : String) : Switch := { name, takesValue := false }

def sharedSwitches : List Switch :=
  [{ name := "context" }, { name := "runtime" }, { name := "docker-bin" }, flag "json",
    { flag "verbose" with letter := some 'v' }, flag "trace"]

def helpImmediate : Immediate := ⟨"help", 'h', .help⟩
def versionImmediate : Immediate := ⟨"version", 'V', .version⟩

/-- An unsigned number, which may also be written as minus zero. -/
def number? (limit : Nat) (s : String) : Option Nat :=
  (Text.readInt64? s).bind fun n => if 0 ≤ n.toInt && n.toInt ≤ limit then some n.toInt.toNat else none

def seconds? (s : String) : Option Nat := Text.readNat? (UInt64.size - 1) s

def upSwitches : List Switch :=
  [{ name := "path", letter := some 'p', accepts := (· ≠ "") }, { name := "name" }, { name := "image" },
    { name := "graph", accepts := (· ≠ "") }, { name := "gpus" },
    { name := "gpu-num", takesNegative := true, accepts := fun s => (Text.readInt64? s).isSome }, flag "no-gpu",
    { name := "cpus" }, { name := "cpu-set" }, { name := "memory" },
    { name := "shm-size", accepts := fun s => (number? (UInt32.size - 1) s).isSome },
    { name := "mount", letter := some 'm', repeatable := true },
    { name := "ssh-port", accepts := fun s => (number? (UInt16.size - 1) s).isSome }, { name := "host" },
    { name := "timeout", accepts := fun s => (seconds? s).isSome }, flag "force"]

def UpOptions.ofGiven (g : Given) : UpOptions :=
  { path := (value? "path" g).getD "."
    name := value? "name" g
    image := value? "image" g
    graph := value? "graph" g
    gpus := value? "gpus" g
    gpuCount := (value? "gpu-num" g).bind Text.readInt64?
    noGpu := isGiven "no-gpu" g
    cpus := value? "cpus" g
    cpuSet := value? "cpu-set" g
    memory := value? "memory" g
    sharedMemory := (((value? "shm-size" g).bind (number? (UInt32.size - 1))).getD 0).toUInt32
    mounts := values "mount" g
    sshPort := (((value? "ssh-port" g).bind (number? (UInt16.size - 1))).getD 0).toUInt16
    host := (value? "host" g).getD Label.localhost
    timeout := ((value? "timeout" g).bind seconds?).getD 120
    forced := isGiven "force" g }

def Shared.ofGiven (g : Given) : Shared :=
  { context := value? "context" g, runtime := value? "runtime" g, dockerBinary := value? "docker-bin" g
    json := isGiven "json" g }

/-- The commands with their own options and the number of their operands. -/
def commands : List (String × List Switch × Nat) :=
  [("up", upSwitches, 0), ("destroy", [], 1), ("pause", [], 1), ("resume", [], 1), ("ls", [], 0), ("images", [], 0),
    ("describe", [], 1), ("deps", [flag "image"], 1), ("ports", [], 1)]

def topGrammar : Grammar :=
  { switches := sharedSwitches, immediate := [helpImmediate, versionImmediate], operands := 0
    commands := commands.map (·.1) }

/-- The command of a name with its operands. -/
def Command.of? (name : String) (g : Given) (operands : List String) : Option Command :=
  match name, operands with
  | "up", [] => some (up (.ofGiven g))
  | "ls", [] => some ls
  | "images", [] => some images
  | "destroy", [target] => some (destroy target)
  | "pause", [target] => some (pause target)
  | "resume", [target] => some (resume target)
  | "describe", [target] => some (describe target)
  | "deps", [target] => some (deps target (isGiven "image" g))
  | "ports", [target] => some (ports target)
  | _, _ => none

/-- What the arguments ask for. -/
inductive Request where
  | invoke (i : Invocation)
  | version
  /-- An explanation, because it was asked for or because nothing was. -/
  | help (asked : Bool)
  | fault (f : Fault)
  deriving DecidableEq, Repr

def Request.ofStop : Stop → Request
  | .fault f => fault f
  | .version => version
  | .help => help true

/-- The request of a command with the arguments after it. -/
def Request.ofCommand (before : Given) (name : String) (switches : List Switch) (operands : Nat)
    (arguments : List String) : Request :=
  match scan { switches := switches ++ sharedSwitches, immediate := [helpImmediate], operands } {} none arguments with
  | .error stop => ofStop stop
  | .ok s =>
    match Command.of? name s.given s.operands with
    | some command => invoke ⟨.ofGiven (s.given ++ before), command⟩
    | none => fault (.operandMissing "<NAME>")

/-- Reads the arguments of the program. -/
def Request.read (arguments : List String) : Request :=
  match scan topGrammar {} none arguments with
  | .error stop => ofStop stop
  | .ok s =>
    match s.rest with
    | [] => if s.given.isEmpty then help false else fault .commandMissing
    | name :: rest =>
      match commands.lookup name with
      | some (switches, operands) => ofCommand s.given name switches operands rest
      | none => fault (.unknown name)

end DevEnv.Cli
