import DevEnv.Gpu.Request
import DevEnv.Naming
import DevEnv.Time.Span

/-! What a start of an environment is asked to do, and which requests make no sense. -/
namespace DevEnv

/-- The control plane that an environment is created on. -/
inductive Options.Source where
  /-- The local runtime, with a build graph unless the image's own is to be used, and further mounts. -/
  | docker (graph : Option Graph) (mounts : List String)
  | server
  deriving DecidableEq, Repr, Inhabited

structure Options where
  image : Option String := none
  name : String
  buildContext : String
  gpu : Gpu.Request := .none
  cpus : Option String := none
  cpuSet : Option String := none
  memory : Option String := none
  /-- Shared memory in mebibytes; zero leaves it to the runtime. -/
  sharedMemory : UInt32 := 0
  /-- The host port for SSH; zero asks for a free one. -/
  sshPort : UInt16 := 0
  sshHost : String := "127.0.0.1"
  timeout : Span := .ofSeconds 120
  forced : Bool := false
  source : Options.Source := .docker none []
  deriving DecidableEq, Repr

namespace Options

inductive Error where
  | emptyName
  | emptyBuildContext
  | cpuConflict
  | illegalName (base : String)
  | gpu (e : Gpu.SpecError)
  deriving DecidableEq

def Error.message : Error → String
  | emptyName => "environment name must not be empty"
  | emptyBuildContext => "build context must not be empty"
  | cpuConflict => "--cpus and --cpu-set cannot be used together"
  | illegalName base => s!"cannot create a legal environment name from '{base}'"
  | gpu e => s!"invalid GPU request: {e.message}"

/-- Refuses a blank name or build context, CPUs given both ways, and a GPU specification that cannot be read. -/
def validate (o : Options) : Except Error Unit :=
  if Text.isAllBlank o.name then .error .emptyName
  else if Text.isAllBlank o.buildContext then .error .emptyBuildContext
  else if o.cpus.isSome && o.cpuSet.isSome then .error .cpuConflict
  else match o.gpu.devices with
    | .ok _ => .ok ()
    | .error e => .error (.gpu e)

def workdir (o : Options) : String := Naming.workdir o.buildContext

end Options

/-- The name of an environment for a directory. -/
def Naming.ofDirectory (dir : String) : Except Options.Error String :=
  match ofDirectory? dir with
  | some name => .ok name
  | none => .error (.illegalName (base dir))

end DevEnv
