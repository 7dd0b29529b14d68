import DevEnv.Cli.Invocation
import DevEnv.Engine
import DevEnv.Graph.File
import DevEnv.World

/-! Starting an environment from the command line: what the options leave open is taken
from the build context and from the image. -/
namespace DevEnv.Cli

/-- A step of the program that may end in an error. -/
abbrev Step (α : Type) : Type := ExceptT Error (Program World.interface) α

def Step.ask (q : World.Query) : Step q.Answer := ExceptT.lift (World.ask q)

def Step.ofExcept {ε α : Type} (wrap : ε → Error) : Except ε α → Step α
  | .ok a => pure a
  | .error e => throw (wrap e)

namespace UpOptions

/-- What the options say once the files they name have been looked at. -/
structure Prepared where
  buildContext : String
  name : String
  graph : Option Graph

def prepare (o : UpOptions) : Step Prepared := do
  let buildContext ← Step.ofExcept .io (← Step.ask (.resolve o.path))
  let name ← match o.name with
    | some name => pure name
    | none => Step.ofExcept .options (Naming.ofDirectory buildContext)
  let graph ← match o.graph with
    | some path => do
      let g ← Step.ofExcept .graph (Graph.ofFile (← Step.ask (.read path)))
      pure (some g)
    | none => pure none
  return { buildContext, name, graph }

variable {I : Interface}

/-- What an image tells about GPUs: its graph, or every device if it has none and carries the mark of GPUs. -/
def recordedGraph (e : Engine I) (image : String) : Action I (Option Graph) := do
  match ← e.imageGraph image with
  | some g => return some g
  | none => return if (← e.image image).manifest.gpu then some { gpuCount := some (-1) } else none

/-- The graph that the decision on GPUs is made from: the one given, or what the image tells.
An image that cannot be looked up tells nothing. -/
def gpuGraph (e : Engine I) (given : Option Graph) (image : Option String) : Action I (Option Graph) :=
  match given, image with
  | some g, _ => return some g
  | none, none => return none
  | none, some image => do
    match ← (recordedGraph e image).outcome with
    | .ok g => return g
    | .error _ => return none

/-- What the engine is asked to start. -/
def options (o : UpOptions) (e : Engine I) (p : Prepared) : Action I Options := do
  let g ← gpuGraph e p.graph o.image
  return {
    image := o.image
    name := p.name
    buildContext := p.buildContext
    gpu := Gpu.Request.resolve o.gpus o.gpuCount g o.noGpu
    cpus := o.cpus
    cpuSet := o.cpuSet
    memory := o.memory
    sharedMemory := o.sharedMemory
    sshPort := o.sshPort
    sshHost := o.host
    timeout := .ofSeconds o.timeout
    forced := o.forced
    source := match e.runner with
      | .docker => .docker p.graph o.mounts
      | .server => .server }

def start (o : UpOptions) (p : Prepared) (e : Engine I) : Action I Started := do e.start (← o.options e p)

end UpOptions
end DevEnv.Cli
