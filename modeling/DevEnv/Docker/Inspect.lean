import DevEnv.Runtime.Call

/-! Reading what the docker command prints about containers, images and itself.
Parts that are missing or of another kind count as empty. -/
namespace DevEnv.Docker

open DevEnv.Runtime (Info)

/-- The part of a value at the end of a path of keys. -/
def at? (path : List String) (j : Json) : Option Json := path.foldlM (fun (j : Json) key => Json.member? key j) j

/-- The members of an object, smallest key first; of equal keys the last one counts. -/
def membersAt (path : List String) (j : Json) : SortedMap String Json :=
  match (at? path j).bind Json.members? with
  | some members => .ofList members
  | none => .ofList []

/-- The texts among the members of an object. -/
def textsAt (path : List String) (j : Json) : SortedMap String String :=
  .ofList ((membersAt path j).entries.filterMap fun e => (e.2.asString?).map (e.1, ·))

def itemsAt (path : List String) (j : Json) : List Json :=
  match at? path j with
  | some (.array items) => items
  | _ => []

/-- A number at the end of a path, zero if there is none. -/
def numberAt (path : List String) (j : Json) : UInt64 := ((at? path j).bind Json.asUInt64?).getD 0

/-- The binding of a port, whose key is a number with or without a protocol; of several bindings the last one counts. -/
def binding? (key : String) (bindings : Json) : Option Container.Binding := do
  let items := match bindings with
    | .array items => items
    | _ => []
  let last ← items.getLast?
  let (port, protocol) := (Text.cut '/' key).getD (key, "tcp")
  let containerPort ← Text.readPort? port
  return { containerPort, protocol, hostIp := Json.textAt ["HostIp"] last
           hostPort := (Text.readPort? (Json.textAt ["HostPort"] last)).getD 0 }

/-- The bindings of a container, smallest container port first. -/
def bindings (j : Json) : List Container.Binding :=
  ((membersAt ["HostConfig", "PortBindings"] j).entries.filterMap fun e => binding? e.1 e.2).mergeSort
    fun a b => a.containerPort ≤ b.containerPort

def container (j : Json) : Except Runtime.Error Container :=
  match Status.read (Json.textAt ["State", "Status"] j) with
  | .error word => .error (.unparsable (Status.unknownMessage word))
  | .ok status => .ok {
      id := ⟨Json.textAt ["Id"] j⟩
      name := String.ofList ((Json.textAt ["Name"] j).toList.dropWhile (· = '/'))
      image := Json.textAt ["Config", "Image"] j
      status
      labels := textsAt ["Config", "Labels"] j
      bindings := bindings j
      address := Json.textAt ["NetworkSettings", "IPAddress"] j }

def image (j : Json) : StoredImage :=
  { id := ⟨Json.textAt ["Id"] j⟩
    tags := (itemsAt ["RepoTags"] j).filterMap Json.asString?
    size := numberAt ["Size"] j
    created := Timestamp.readStrict (Json.textAt ["Created"] j)
    labels := textsAt ["Config", "Labels"] j }

def info (j : Json) : Info :=
  { name := "docker"
    serverVersion := Json.textAt ["ServerVersion"] j
    os := Json.textAt ["OperatingSystem"] j
    kernel := Json.textAt ["KernelVersion"] j
    defaultRuntime := Json.textAt ["DefaultRuntime"] j
    cpus := numberAt ["NCPU"] j
    memory := numberAt ["MemTotal"] j
    runtimes := .ofList ((membersAt ["Runtimes"] j).entries.map fun e => (e.1, Json.textAt ["path"] e.2)) }

/-- The items of a printed list. -/
def readItems (subject printed : String) : Except Runtime.Error (List Json) :=
  match Json.readKept? (Text.trim printed) with
  | some (.array items) => .ok items
  | _ => .error (.unparsable s!"{subject} inspect: not a list in JSON")

def readContainers (printed : String) : Except Runtime.Error (List Container) := do
  (← readItems "container" printed).mapM container

def readImages (printed : String) : Except Runtime.Error (List StoredImage) := do
  return (← readItems "image" printed).map image

def readInfo (printed : String) : Except Runtime.Error Info :=
  match Json.readKept? (Text.trim printed) with
  | some j => .ok (info j)
  | none => .error (.unparsable "docker info: not a value in JSON")

end DevEnv.Docker
