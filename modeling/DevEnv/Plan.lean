import DevEnv.Container
import DevEnv.Error
import DevEnv.Naming

/-! What a new environment takes from its host: directories and ports.
Every service gets one port of the container and one of the host. -/
namespace DevEnv

namespace Container

/-- A mount given by the user, then those of the graph, then the build context on the working directory. -/
def mounts (options : List String) (g : Graph) (buildContext : String) : Except Error (List Mount) := do
  let given ← options.mapM fun option =>
    match Graph.Mount.read option with
    | .ok m => Except.ok m
    | .error _ => .error (.invalidOptions s!"invalid mount option '{option}', expected '<host>:<container>'")
  return (given ++ g.mounts).map (fun m => (⟨m.source, m.destination, false⟩ : Mount)) ++
    [⟨buildContext, Naming.workdir buildContext, false⟩]

end Container

/-- The ports that the services of an environment listen on inside its container. -/
def sshPort : UInt16 := 2222
def jupyterPort : UInt16 := 8888
def rstudioPort : UInt16 := 8787

def sshService : String := "ssh"
def jupyterService : String := "jupyter"
def rstudioService : String := "rstudio"

/-- The port layout of a new environment. -/
structure Plan where
  /-- One binding for each container port, smallest port first. -/
  bindings : SortedMap UInt16 Container.Binding
  /-- The container ports besides that of SSH, each once. -/
  exposed : List UInt16 := []
  jupyter : Option UInt16 := none
  rstudio : Option UInt16 := none
  /-- The host port of each service, that of SSH first. -/
  services : List ServicePort
  deriving DecidableEq

namespace Plan

/-- The ports that no exposure may take, with their services. -/
def reserved (g : Graph) : List (UInt16 × String) :=
  [(sshPort, sshService)] ++ (if g.jupyter.isSome then [(jupyterPort, jupyterService)] else []) ++
    if g.rstudio then [(rstudioPort, rstudioService)] else []

/-- Refuses an exposure of a reserved port. -/
def checkReserved (g : Graph) : Except Error Unit :=
  match g.exposures.findSome? fun e => ((reserved g).lookup e.containerPort).map (e.containerPort, ·) with
  | some (port, owner) => .error (.invalidOptions s!"exposed port {Text.ofNat port.toNat} is reserved for {owner}")
  | none => .ok ()

/-- The layout with nothing but SSH. -/
def ofSsh (host : String) (port : UInt16) : Plan :=
  { bindings := .ofList [(sshPort, .tcp sshPort host port)], services := [⟨sshService, port⟩] }

/-- Adds a service; a later one takes over the binding of its container port. -/
def addService (p : Plan) (name : String) (containerPort : UInt16) (hostIp : String) (hostPort : UInt16) : Plan :=
  { p with
    bindings := p.bindings.insert containerPort (.tcp containerPort hostIp hostPort)
    exposed := if p.exposed.contains containerPort then p.exposed else p.exposed ++ [containerPort]
    services := p.services ++ [⟨name, hostPort⟩] }

/-- The name of an exposure's service. -/
def exposureName (e : Graph.Exposure) : String :=
  if e.service = "" then "port-" ++ Text.ofNat e.containerPort.toNat else e.service

variable {m : Type → Type} [Monad m]

/-- A pinned port, or a free one for zero. -/
def pick (free : m UInt16) (pinned : UInt16) : m UInt16 := if pinned = 0 then free else pure pinned

def addJupyter (free : m UInt16) (g : Graph) (p : Plan) : m Plan :=
  match g.jupyter with
  | none => pure p
  | some j => do
    let port ← pick free j.port
    return { p.addService jupyterService jupyterPort Label.localhost port with jupyter := some port }

def addRstudio (free : m UInt16) (g : Graph) (p : Plan) : m Plan :=
  if g.rstudio then do
    let port ← free
    return { p.addService rstudioService rstudioPort Label.localhost port with rstudio := some port }
  else pure p

def addExposure (free : m UInt16) (p : Plan) (e : Graph.Exposure) : m Plan := do
  let port ← pick free e.hostPort
  return p.addService (exposureName e) e.containerPort (e.address.getD Label.localhost) port

/-- Gives host ports to SSH and to every service of a graph, asking for free ones where none are pinned. -/
def make (free : ExceptT Error m UInt16) (g : Graph) (sshHost : String) (ssh : UInt16) : ExceptT Error m Plan := do
  match checkReserved g with
  | .error e => throw e
  | .ok () =>
    let p ← addJupyter free g (ofSsh sshHost ssh)
    let p ← addRstudio free g p
    g.exposures.foldlM (addExposure free) p

end Plan
end DevEnv
