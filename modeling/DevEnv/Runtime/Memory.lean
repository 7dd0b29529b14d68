import DevEnv.Runtime.Call

/-! A container runtime that lives in memory, for dry runs. Every change of a container's status is checked;
started containers run at once, after some inspections, or never. -/
namespace DevEnv.Runtime

/-- A container with what it was created from. -/
structure Memory.Entry where
  container : Container
  spec : Container.Spec
  /-- The inspections left before a started container reports running. -/
  pending : Option Nat := none
  deriving DecidableEq, Inhabited

/-- The order in which a lookup comes upon the containers. It may be any, and another one as soon as a container was
created or removed: nothing tells which, so what holds of a runtime has to hold for every order. -/
structure Memory.Order where
  /-- The names there are in this order, while the next object is identified by the number. -/
  visit : Nat → List String → List String
  perm : ∀ nextId names, (visit nextId names).Perm names

/-- The order of the names themselves. -/
def Memory.Order.ascending : Memory.Order := ⟨fun _ names => names, fun _ names => .refl names⟩

instance : Inhabited Memory.Order := ⟨.ascending⟩

structure Memory where
  /-- Containers by name. -/
  containers : SortedMap String Memory.Entry := ∅
  /-- Images by reference. -/
  images : SortedMap String StoredImage := ∅
  /-- Host ports that something outside the runtime has taken. -/
  occupied : List UInt16 := []
  runtimes : SortedMap String String := .ofList [("runc", "runc")]
  kernel : String := "6.1.0-mock"
  /-- The inspections until a started container reports running, or nothing if it never does. -/
  startDelay : Option Nat := some 0
  /-- The number that the next object is identified by. It is one more than the number of objects made so far, so that
  64 bits have room for it unless 2 ^ 64 - 1 objects are made. -/
  nextId : Nat := 1
  order : Memory.Order := .ascending
  deriving Inhabited

namespace Memory

/-- A number in sixty-four hexadecimal digits. -/
def hexId (n : Nat) : String :=
  String.ofList (List.replicate (64 - (Nat.toDigits 16 n).length) '0' ++ Nat.toDigits 16 n)

/-- The address that started containers get. -/
def address : String := "172.17.0.2"

/-- Registers an image. -/
def addImage (m : Memory) (reference : String) (labels : Labels) (created : Timestamp) : Memory :=
  { m with
    images := m.images.insert reference
      { id := ⟨"sha256:" ++ hexId m.nextId⟩, tags := [reference], size := 1048576, created := some created, labels }
    nextId := m.nextId + 1 }

/-- Takes a host port from outside the runtime. -/
def occupy (m : Memory) (port : UInt16) : Memory := { m with occupied := port :: m.occupied }

/-- The name of the first container that a lookup comes upon with this name, or with this identifier. -/
def key? (m : Memory) (name : String) : Option String :=
  (m.order.visit m.nextId m.containers.keys).find? fun key =>
    key = name || (m.containers.get? key).any (·.container.id.text = name)

/-- The container that a name leads to. -/
def find? (m : Memory) (name : String) : Option Entry := (m.key? name).bind m.containers.get?

/-- What every operation on one container starts with. -/
def withFound {α : Type} (m : Memory) (name : String) (act : Entry → Except Error α × Memory) :
    Except Error α × Memory :=
  match m.find? name with
  | some e => act e
  | none => (.error (.notFound name), m)

/-- Files a container under its own name. -/
def put (m : Memory) (e : Entry) : Memory := { m with containers := m.containers.insert e.container.name e }

/-- Puts a container into a state that may follow its own. -/
def become (m : Memory) (e : Entry) (status : Status) : Except Error Unit × Memory :=
  match e.container.status.change status with
  | .ok () => (.ok (), m.put { e with container := { e.container with status } })
  | .error bad => (.error (.change bad), m)

/-- Whether labels pass a filter: a key and its value, a key alone, or nothing. -/
def passes (filter : String) (labels : Labels) : Bool :=
  match Text.cut '=' filter with
  | some (key, value) => labels.get? key = some value
  | none => filter = "" || labels.contains filter

/-- The host ports that are taken, apart from those of one container. -/
def portsInUse (m : Memory) (except : String) : List UInt16 :=
  m.occupied ++ (m.containers.entries.filter fun e => e.1 ≠ except && e.2.container.status.isLive).flatMap
    fun e => e.2.container.bindings.map (·.hostPort)

def info (m : Memory) : Info :=
  { name := "mock", serverVersion := "0.0.0-mock", os := "mock", kernel := m.kernel, defaultRuntime := "runc"
    cpus := 4, memory := 8589934592, runtimes := m.runtimes }

/-- One inspection further towards running. -/
def Entry.advance (e : Entry) : Entry :=
  if e.container.status = .created then
    match e.pending with
    | some 0 => { e with container := { e.container with status := .running } }
    | some (n + 1) => { e with pending := some n }
    | none => e
  else e

def inspect (m : Memory) (name : String) : Except Error Container × Memory :=
  m.withFound name fun e => (.ok e.advance.container, m.put e.advance)

/-- A new container; it has the labels of its image, over which its own are laid. -/
def newEntry (m : Memory) (spec : Container.Spec) : Entry :=
  let inherited := (m.images.get? spec.image).elim ∅ (·.labels)
  { spec
    container := { id := ⟨hexId m.nextId⟩, name := spec.name, image := spec.image, status := .created
                   labels := inherited.overlay spec.labels, bindings := spec.bindings, address := "" } }

def create (m : Memory) (spec : Container.Spec) : Except Error Identifier × Memory :=
  if m.containers.contains spec.name then
    (.error (.conflict s!"the container name \"/{spec.name}\" is already in use"), m)
  else match Status.change .notCreated .created with
    | .error bad => (.error (.change bad), m)
    | .ok () =>
      let e := m.newEntry spec
      (.ok e.container.id, { m.put e with nextId := m.nextId + 1 })

/-- Starts the container that the name of the one found leads to, if its host ports are free of all others than the one
found; the address is given out before the change is checked. -/
def start (m : Memory) (name : String) : Except Error Unit × Memory :=
  m.withFound name fun found => m.withFound found.container.name fun e =>
    if e.container.status = .running then (.ok (), m)
    else match e.container.bindings.find? fun b => (m.portsInUse found.container.name).contains b.hostPort with
      | some b =>
        let text := s!"Bind for {b.hostIp}:{Text.ofNat b.hostPort.toNat} failed: port is already allocated"
        (.error (.portAllocated text), m)
      | none =>
        let e := { e with container := { e.container with address := address } }
        match m.startDelay with
        | some 0 => (m.put e).become e .running
        | delay => (.ok (), m.put { e with pending := delay })

def pause (m : Memory) (name : String) : Except Error Unit × Memory :=
  m.withFound name fun e =>
    match e.container.status with
    | .paused => (.error (.alreadyPaused name), m)
    | .running => m.become e .paused
    | _ => (.error (.notRunning name), m)

def unpause (m : Memory) (name : String) : Except Error Unit × Memory :=
  m.withFound name fun e =>
    if e.container.status = .paused then m.become e .running else (.error (.notPaused name), m)

/-- Ends the processes of a live container. -/
def kill (m : Memory) (name : String) : Except Error Unit × Memory :=
  m.withFound name fun e =>
    if e.container.status.isLive then m.become e .exited else (.error (.notRunning name), m)

/-- Takes a container away, a live one only by force. -/
def remove (m : Memory) (name : String) (forced : Bool) : Except Error Unit × Memory :=
  m.withFound name fun e =>
    if e.container.status.isLive && !forced then
      (.error (.conflict s!"You cannot remove a running container {e.container.id.text}"), m)
    else match m.become e .removing with
      | (.error bad, m) => (.error bad, m)
      | (.ok (), m) =>
        match Status.change .removing .notCreated with
        | .error bad => (.error (.change bad), m)
        | .ok () => (.ok (), { m with containers := m.containers.erase e.container.name })

def list (m : Memory) (label : String) : List Container :=
  (m.containers.values.map (·.container)).filter fun c => passes label c.labels

/-- The image of a reference, or the first one with the identifier. -/
def inspectImage (m : Memory) (reference : String) : Except Error StoredImage :=
  match m.images.get? reference with
  | some i => .ok i
  | none =>
    match m.images.values.find? (·.id.text = reference) with
    | some i => .ok i
    | none => .error (.notFound reference)

def listImages (m : Memory) (label : String) : List StoredImage :=
  m.images.values.filter fun i => passes label i.labels

/-- Takes an image away that no container was created from. -/
def removeImage (m : Memory) (reference : String) : Except Error Unit × Memory :=
  if !m.images.contains reference then (.error (.notFound reference), m)
  else if m.containers.values.any (·.container.image = reference) then
    (.error (.conflict
      s!"unable to remove repository reference \"{reference}\": container is using its referenced image"), m)
  else (.ok (), { m with images := m.images.erase reference })

/-- A change of status that comes from the runtime's side, such as a process that ends. -/
def setStatus (m : Memory) (name : String) (status : Status) : Except Error Unit × Memory :=
  m.withFound name fun e => m.become e status

/-- Answers a call. -/
def answer : (c : Call) → Memory → Except Error c.Reply × Memory
  | .info, m => (.ok m.info, m)
  | .inspect name, m => m.inspect name
  | .create spec, m => m.create spec
  | .start name, m => m.start name
  | .pause name, m => m.pause name
  | .unpause name, m => m.unpause name
  | .kill name, m => m.kill name
  | .remove name forced, m => m.remove name forced
  | .list label, m => (.ok (m.list label), m)
  | .inspectImage reference, m => (m.inspectImage reference, m)
  | .listImages label, m => (.ok (m.listImages label), m)
  | .removeImage reference, m => m.removeImage reference

end Memory
end DevEnv.Runtime
