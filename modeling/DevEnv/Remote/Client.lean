import DevEnv.Engine
import DevEnv.Plan
import DevEnv.Remote.Message
import DevEnv.Wait

/-! Environments that a server manages. The server knows no pausing and does not tell about its GPUs;
what it does is asked for under the name of the user who has logged in. -/
namespace DevEnv.Remote

inductive Method where
  | get
  | post
  | delete
  deriving DecidableEq, Repr

/-- One exchange with the server; a body is sent as JSON. -/
structure Request where
  method : Method
  url : String
  token : Option String
  body : Option Json
  deriving Repr

/-- What came back: a body, a status that stands for a failure, or nothing for a reason. -/
inductive Response where
  | body (bytes : List UInt8)
  | refused (status : Nat)
  | unreached (reason : String)
  deriving DecidableEq, Repr

def interface : Interface := ⟨Request, fun _ => Response⟩

abbrev Act (α : Type) : Type := Action interface α

/-- A server and the user on whose behalf it is asked. -/
structure Account where
  address : String
  login : String
  token : Option String := none
  deriving DecidableEq, Repr

/-- The name of the control plane in messages. -/
def runnerName : String := Runner.server.name

namespace Account

/-- The account of a context, which has to name a server and a user. -/
def ofContext (c : Context) : Except Error Account :=
  match c.address, c.login with
  | none, _ => .error (.invalidOptions s!"context '{c.name}' has no runner address")
  | some _, none =>
    .error (.invalidOptions s!"context '{c.name}' has no login name, run \x60envd login\x60 first")
  | some address, some login => .ok { address, login, token := c.token }

/-- The address without slashes at its end. -/
def base (a : Account) : String := String.ofList (a.address.toList.reverse.dropWhile (· = '/')).reverse

def url (a : Account) (path : String) : String := s!"{a.base}/api/v1/users/{a.login}/{path}"

def environmentsUrl (a : Account) : String := a.url "environments"
def environmentUrl (a : Account) (name : String) : String := a.url s!"environments/{name}"
def imagesUrl (a : Account) : String := a.url "images"
def imageUrl (a : Account) (name : String) : String := a.url s!"images/{name}"

end Account

/-- The body of a reply; any other outcome is an error. -/
def exchange (r : Request) : Act (List UInt8) := do
  match ← Action.ask (I := interface) r with
  | .body bytes => return bytes
  | .refused status => throw (.http status r.url)
  | .unreached reason => throw (.transport reason)

/-- The value that a reply holds. -/
def decode {α : Type} (value? : Json → Option α) (bytes : List UInt8) : Act α :=
  match (Json.readBytes? bytes).bind value? with
  | some a => return a
  | none => throw (.serialization "a reply is not of the expected form")

def get {α : Type} (a : Account) (url : String) (value? : Json → Option α) : Act α := do
  decode value? (← exchange ⟨.get, url, a.token, none⟩)

def post {α : Type} (a : Account) (url : String) (body : Json) (value? : Json → Option α) : Act α := do
  decode value? (← exchange ⟨.post, url, a.token, some body⟩)

def delete (a : Account) (url : String) : Act Unit := do
  let _ ← exchange ⟨.delete, url, a.token, none⟩

/-- The outcome of an action, nothing if the server does not know what it was asked for. -/
def known {α : Type} (act : Act α) : Act (Option α) := do
  match ← act.outcome with
  | .ok a => return some a
  | .error (.http 404 _) => return none
  | .error e => throw e

def fetch (a : Account) (name : String) : Act (Option Described) :=
  known (get a (a.environmentUrl name) Described.ofJson?)

def fetchImage (a : Account) (name : String) : Act Cataloged := do
  match ← known (get a (a.imageUrl name) Cataloged.ofJson?) with
  | some i => return i
  | none => throw (.imageNotFound name)

/-- An environment as the server describes it; it is reached by SSH through the server. -/
def view (d : Described) : Except Label.Error Environment := do
  return {
    name := d.name
    image := d.image
    status := d.status
    sshPort
    jupyter := d.labels.get? Label.jupyterKey
    rstudio := d.labels.get? Label.rstudioKey
    manifest := ← Label.manifest d.labels }

def imageView (i : Cataloged) : Except Label.Error Image := do
  return {
    reference := i.name
    id := ⟨i.digest⟩
    tags := [i.name]
    size := i.size.toInt.toNat.toUInt64
    created := Timestamp.ofSeconds? i.created.toInt
    manifest := ← Label.manifest i.labels }

def unsupported {α : Type} (operation : String) : Act α := throw (.unsupported runnerName operation)

def isPresent (a : Account) (name : String) : Act Bool := do return (← fetch a name).isSome

def isRunning (a : Account) (name : String) : Act Bool := do
  return (← fetch a name).any (·.phase = Described.running)

/-- Removes an environment if it exists; the server knows no force. -/
def clean (a : Account) (name : String) (_forced : Bool) : Act Unit := do
  if ← isPresent a name then delete a (a.environmentUrl name)

/-- The state of an environment in words. -/
def stateText (a : Account) (name : String) : Act String := do
  match ← (fetch a name).outcome with
  | .ok (some d) => return if d.phase = "" then "unknown" else d.phase
  | .ok none => return Status.notCreated.name
  | .error e => return s!"unknown ({e.message})"

def watch (p : Engine.Patience) (a : Account) (name : String) (timeout : Span) : Watch interface :=
  { name, timeout, interval := p.interval, probe := isRunning a name, lastState := stateText a name }

def awaitRunning (p : Engine.Patience) (a : Account) (name : String) (timeout : Span) : Act Unit :=
  (watch p a name timeout).await p.steps

/-- The environment that a start asks for. -/
def requestOf (o : Options) : Act Described :=
  match o.source with
  | .docker .. => throw (.invalidOptions "the envd-server runner needs server start options")
  | .server =>
    match o.image.filter (· ≠ "") with
    | none => throw (.invalidOptions "an image is required to start an environment")
    | some image => do
      let gpus ← Action.ofExcept .device o.gpu.total
      return {
        name := o.name
        image
        resources := {
          cpu := o.cpus.getD ""
          memory := o.memory.getD ""
          gpu := Text.ofInt gpus.toInt
          sharedMemory := s!"{Text.ofNat o.sharedMemory.toNat}Mi" } }

def start (p : Engine.Patience) (a : Account) (o : Options) : Act Started := do
  Action.ofExcept .options o.validate
  let request ← requestOf o
  let created ← post a a.environmentsUrl request.toJson createdOfJson?
  awaitRunning p a created.name o.timeout
  return { sshPort, address := "", name := created.name, ports := created.ports }

def destroy (a : Account) (name : String) : Act (Option String) := do
  return (← known (delete a (a.environmentUrl name))).map fun () => name

def environments (a : Account) : Act (List Environment) := do
  return ((← get a a.environmentsUrl (itemsOfJson? Described.ofJson?)).map view).filterMap Except.toOption

def environment (a : Account) (name : String) : Act Environment := do
  match ← fetch a name with
  | some d => Action.ofExcept .label (view d)
  | none => throw (.environmentNotFound name)

def images (a : Account) : Act (List Image) := do
  return ((← get a a.imagesUrl (itemsOfJson? Cataloged.ofJson?)).map imageView).filterMap Except.toOption

def image (a : Account) (name : String) : Act Image := do
  Action.ofExcept .label (imageView (← fetchImage a name))

def imageGraph (a : Account) (name : String) : Act (Option Graph) := do
  Action.ofExcept .label (Label.graph (← fetchImage a name).labels)

def imageDependency (a : Account) (name : String) : Act Dependency := do return (← image a name).manifest.dependency

def dependency (a : Account) (name : String) : Act Dependency := do return (← environment a name).manifest.dependency

/-- The one port of a remote environment, that of SSH at the server. -/
def ports (a : Account) (name : String) : Act (List PortBinding) := do
  if ← isPresent a name then return [⟨sshService, sshPort, "TCP", "localhost", sshPort⟩]
  else throw (.environmentNotFound name)

/-- The engine for the environments of a server. -/
def engine (p : Engine.Patience) (a : Account) : Engine interface :=
  { runner := .server
    isPresent := isPresent a
    isRunning := isRunning a
    clean := clean a
    start := start p a
    awaitRunning := awaitRunning p a
    pause := fun _ => unsupported "pause"
    resume := fun _ => unsupported "resume"
    destroy := destroy a
    hasGpu := unsupported "GPU detection"
    info := unsupported "info"
    environments := environments a
    environment := environment a
    images := images a
    image := image a
    imageGraph := imageGraph a
    imageDependency := imageDependency a
    dependency := dependency a
    ports := ports a }

end DevEnv.Remote
