import DevEnv.Engine
import DevEnv.Local.Inventory
import DevEnv.Wait

/-! Starting environments on a container runtime and taking them down again.
A start settles its image, its graph and its devices before it touches an environment that is already there. -/
namespace DevEnv.Local

def isPresent (name : String) : Act Bool := do
  match ← attempt (.inspect name) with
  | .ok _ => return true
  | .error (.notFound _) => return false
  | .error e => throw (.runtime e)

def isRunning (name : String) : Act Bool := do
  match ← attempt (.inspect name) with
  | .ok c => return c.isRunning
  | .error (.notFound _) => return false
  | .error e => throw (.runtime e)

def clean (name : String) (forced : Bool) : Act Unit := do
  match ← attempt (.inspect name) with
  | .ok c =>
    if !forced && c.status.isLive then throw (.stillRunning name)
    else call (.remove name forced)
  | .error (.notFound _) => return ()
  | .error e => throw (.runtime e)

/-- The graph recorded on an image; an image without one has no services. -/
def recordedGraph (image : String) : Act Graph := do
  match ← attempt (.inspectImage image) with
  | .ok i => return (← Action.ofExcept .label (Label.graph i.labels)).getD {}
  | .error (.notFound _) => throw (.imageNotFound image)
  | .error e => throw (.runtime e)

/-- The low-level runtime that gives containers GPUs. -/
def gpuRuntime : String := "nvidia"

/-- The end of the name of a kernel under which the runtime does not tell whether there are GPUs. -/
def subsystemMark : List Char := "WSL2".toList

/-- Whether containers can be given GPUs, as far as can be told. -/
def offersGpu (i : Runtime.Info) : Bool :=
  (i.runtimes.get? gpuRuntime).any (· ≠ "") || subsystemMark.isSuffixOf i.kernel.toList

def hasGpu : Act Bool := do return offersGpu (← call .info)

/-- The state of an environment in words. -/
def stateText (name : String) : Act String := do
  match ← attempt (.inspect name) with
  | .ok c => return c.status.name
  | .error e => return s!"unknown ({e.message})"

def watch (p : Engine.Patience) (name : String) (timeout : Span) : Watch Runtime.interface :=
  { name, timeout, interval := p.interval, probe := isRunning name, lastState := stateText name }

def awaitRunning (p : Engine.Patience) (name : String) (timeout : Span) : Act Unit :=
  (watch p name timeout).await p.steps

def freePort : Act UInt16 := do Action.ofExcept .io (← Action.host .freePort)

/-- The graph and the mounts of a start on a container runtime. -/
def sourceOf (o : Options) : Act (Option Graph × List String) :=
  match o.source with
  | .docker g mounts => return (g, mounts)
  | .server => throw (.invalidOptions "the docker runner needs docker start options")

def imageOf (o : Options) : Act String :=
  match o.image.filter (· ≠ "") with
  | some image => return image
  | none => throw (.invalidOptions "an image is required to start an environment")

/-- The devices that a start asks for, refused where the runtime has none. -/
def devicesOf (o : Options) : Act (List Gpu.Device) := do
  let devices ← Action.ofExcept .device o.gpu.devices
  if devices.isEmpty then return devices
  else if ← hasGpu then return devices
  else throw .gpuUnavailable

def mebibyte : UInt64 := 1048576

def restartPolicy : String := "always"

/-- What the container of an environment is created from. -/
def specOf (o : Options) (image : String) (g : Graph) (devices : List Gpu.Device) (ssh : UInt16)
    (mounts : List Container.Mount) (p : Plan) : Container.Spec :=
  { name := o.name
    image
    workdir := o.workdir
    labels := Label.ofStart o.name g (!devices.isEmpty) ssh p.jupyter p.rstudio
    exposed := p.exposed
    bindings := p.bindings.values
    mounts
    restartPolicy
    sharedMemory := if o.sharedMemory = 0 then none else some (o.sharedMemory.toUInt64 * mebibyte)
    devices
    cpus := o.cpus
    cpuSet := o.cpuSet
    memory := o.memory }

/-- Starts a container that was created; a taken port is reported as one of the host. -/
def launch (name : String) : Act Unit := do
  match ← attempt (.start name) with
  | .ok () => return ()
  | .error (.portAllocated text) => throw (.portAllocated text)
  | .error e => throw (.runtime e)

def start (p : Engine.Patience) (o : Options) : Act Started := do
  Action.ofExcept .options o.validate
  let (given, mountOptions) ← sourceOf o
  let image ← imageOf o
  let g ← match given with
    | some g => pure g
    | none => recordedGraph image
  Action.ofExcept .graph g.validate
  let devices ← devicesOf o
  let ssh ← Plan.pick freePort o.sshPort
  clean o.name o.forced
  let mounts ← Action.ofExcept id (Container.mounts mountOptions g o.buildContext)
  let plan ← Plan.make freePort g o.sshHost ssh
  let _ ← call (.create (specOf o image g devices ssh mounts plan))
  launch o.name
  awaitRunning p o.name o.timeout
  let c ← call (.inspect o.name)
  return { sshPort := ssh, address := c.address, name := o.name, ports := plan.services }

def pause (name : String) : Act (Option String) := do
  match ← attempt (.pause name) with
  | .ok () => return some name
  | .error (.alreadyPaused _) => return none
  | .error (.notFound _) => throw (.environmentNotFound name)
  | .error e => throw (.runtime e)

def resume (name : String) : Act (Option String) := do
  match ← attempt (.unpause name) with
  | .ok () => return some name
  | .error (.notPaused _) => return none
  | .error (.notFound _) => throw (.environmentNotFound name)
  | .error e => throw (.runtime e)

/-- Ends the processes of an environment, if there are any. -/
def stop (name : String) : Act Unit := do
  match ← attempt (.kill name) with
  | .ok () => return ()
  | .error (.notRunning _) => return ()
  | .error e => throw (.runtime e)

/-- Takes an image away unless it is gone or still in use. -/
def dropImage (reference : String) : Act Unit := do
  match ← attempt (.removeImage reference) with
  | .ok () => return ()
  | .error (.notFound _) => return ()
  | .error (.conflict _) => return ()
  | .error e => throw (.runtime e)

/-- Removes an environment and its image. -/
def destroy (name : String) : Act (Option String) := do
  match ← attempt (.inspect name) with
  | .ok c =>
    stop name
    call (.remove name false)
    dropImage c.image
    return some name
  | .error (.notFound _) => return none
  | .error e => throw (.runtime e)

/-- The engine for environments on a container runtime. -/
def engine (p : Engine.Patience) : Engine Runtime.interface :=
  { runner := .docker
    isPresent, isRunning, clean
    start := start p
    awaitRunning := awaitRunning p
    pause, resume, destroy, hasGpu
    info := call .info
    environments, environment, images, image, imageGraph, imageDependency, dependency, ports }

end DevEnv.Local
