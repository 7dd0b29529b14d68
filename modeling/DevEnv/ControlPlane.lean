import DevEnv.Local.Lifecycle
import DevEnv.World

/-! Which control plane a context stands for, and operations on the one chosen.
The container runtime of a context can be exchanged for another one; a server cannot. -/
namespace DevEnv

/-- The container runtimes there are. -/
inductive Runtime.Choice where
  | docker (binary : String)
  | memory
  deriving DecidableEq, Repr

namespace Runtime.Choice

def name : Choice → String
  | docker _ => "docker"
  | memory => "mock"

/-- The runtime of a name; the docker command may be given. -/
def named (name : String) (binary : Option String) : Except Error Choice :=
  if name = "docker" then .ok (docker (binary.getD Docker.usualBinary))
  else if name = "mock" then .ok memory
  else .error (.unavailable name)

end Runtime.Choice

/-- What runs the environments of a context. -/
inductive ControlPlane where
  | runtime (r : Runtime.Choice)
  | server (a : Remote.Account)
  deriving DecidableEq, Repr

namespace ControlPlane

def runner : ControlPlane → Runner
  | runtime _ => .docker
  | server _ => .server

/-- The control plane of a context, with another container runtime if one is asked for. -/
def ofContext (c : Context) (runtimeName binary : Option String) : Except Error ControlPlane :=
  match c.runner, runtimeName with
  | .docker, name =>
    match Runtime.Choice.named (name.getD "docker") binary with
    | .ok r => .ok (runtime r)
    | .error e => .error (.runtime e)
  | .server, some name => .error (.invalidOptions s!"runtime '{name}' cannot be used with an envd-server context")
  | .server, none => (Remote.Account.ofContext c).map server

/-- Performs an operation on the engine of a control plane. -/
def perform {α : Type} (p : Engine.Patience) (operation : (I : Interface) → Engine I → Action I α) :
    ControlPlane → Program World.interface (Except Error α)
  | runtime (.docker binary) => World.viaDocker binary (operation _ (Local.engine p))
  | runtime .memory => World.viaMemory (operation _ (Local.engine p))
  | server a => World.viaServer (operation _ (Remote.engine p a))

end ControlPlane
end DevEnv
