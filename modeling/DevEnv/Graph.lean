import DevEnv.Text.Split
import DevEnv.Json.Decode

/-! Build graphs: what the image of an environment was built with and which services it declares.
Every part may be left out. -/
namespace DevEnv

/-- A directory of the host shown at a place in the container. -/
structure Graph.Mount where
  source : String
  destination : String
  deriving DecidableEq, Repr, Inhabited

structure Graph.Jupyter where
  token : String := ""
  /-- The host port; zero asks for a free one. -/
  port : UInt16 := 0
  deriving DecidableEq, Repr, Inhabited

/-- A container port to be reached from the host. -/
structure Graph.Exposure where
  containerPort : UInt16
  /-- The host port; zero asks for a free one. -/
  hostPort : UInt16 := 0
  service : String := ""
  address : Option String := none
  deriving DecidableEq, Repr, Inhabited

structure Graph where
  syntaxVersion : Option String := none
  mounts : List Graph.Mount := []
  jupyter : Option Graph.Jupyter := none
  rstudio : Bool := false
  exposures : List Graph.Exposure := []
  gpuCount : Option Int64 := none
  cuda : Option String := none
  cudnn : Option String := none
  aptPackages : List String := []
  pypiCommands : List String := []
  rPackages : List String := []
  deriving DecidableEq, Repr, Inhabited

namespace Graph

inductive Error where
  | unreadable (reason : String)
  | malformed
  | invalidMount (spec : String)
  | zeroPort (service : String)
  deriving DecidableEq, Repr

def Error.message : Error → String
  | unreadable reason => s!"failed to read build graph: {reason}"
  | malformed => "failed to parse build graph: not a build graph in JSON"
  | invalidMount spec => s!"invalid mount declaration '{spec}', expected '<host>:<container>'"
  | zeroPort service => s!"exposed port of service '{service}' must not be 0"

/-- Reads a mount of the form host, colon, container; both sides are given and hold no further colon. -/
def Mount.read (spec : String) : Except Error Mount :=
  match Text.cut ':' spec with
  | some (source, destination) =>
    if source ≠ "" && destination ≠ "" && !destination.toList.contains ':' then .ok ⟨source, destination⟩
    else .error (.invalidMount spec)
  | none => .error (.invalidMount spec)

/-- A graph asks for GPUs by a CUDA base or by a count other than zero. -/
def wantsGpu (g : Graph) : Bool := g.cuda.isSome || g.gpuCount.any (· ≠ 0)

/-- Refuses a graph that exposes port zero. -/
def validate (g : Graph) : Except Error Unit :=
  match g.exposures.find? (·.containerPort = 0) with
  | some e => .error (.zeroPort e.service)
  | none => .ok ()

open Json (Slot)

def Mount.toJson (m : Mount) : Json :=
  .record [("source", .ofString m.source), ("destination", .ofString m.destination)]

def Mount.ofJson? (j : Json) : Option Mount := do
  match ← j.slots? ["source", "destination"] with
  | [source, destination] =>
    return { source := ← source.required Json.asString?, destination := ← destination.required Json.asString? }
  | _ => none

def Jupyter.toJson (j : Jupyter) : Json :=
  .record [("token", .ofString j.token), ("port", .ofNat j.port.toNat)]

def Jupyter.ofJson? (j : Json) : Option Jupyter := do
  match ← j.slots? ["token", "port"] with
  | [token, port] =>
    return { token := ← token.defaulted "" Json.asString?, port := ← port.defaulted 0 Json.asUInt16? }
  | _ => none

def Exposure.toJson (e : Exposure) : Json :=
  .record ([("envd_port", .ofNat e.containerPort.toNat), ("host_port", .ofNat e.hostPort.toNat),
      ("service_name", .ofString e.service)] ++
    match e.address with
      | some a => [("listening_addr", .ofString a)]
      | none => [])

def Exposure.ofJson? (j : Json) : Option Exposure := do
  match ← j.slots? ["envd_port", "host_port", "service_name", "listening_addr"] with
  | [containerPort, hostPort, service, address] =>
    return {
      containerPort := ← containerPort.required Json.asUInt16?
      hostPort := ← hostPort.defaulted 0 Json.asUInt16?
      service := ← service.defaulted "" Json.asString?
      address := ← address.defaulted none (Json.asOption? Json.asString?) }
  | _ => none

/-- The empty record that declares RStudio. -/
def rstudioOfJson? (j : Json) : Option Bool :=
  match j with
  | .null => some false
  | j => (j.slots? []).map fun _ => true

def fields : List String :=
  ["syntax_version", "mounts", "jupyter", "rstudio", "exposed_ports", "num_gpus", "cuda", "cudnn",
    "apt_packages", "pypi_commands", "r_packages"]

def toJson (g : Graph) : Json :=
  let text := Json.ofOption Json.ofString
  let texts := Json.ofList Json.ofString
  .record [
    ("syntax_version", text g.syntaxVersion),
    ("mounts", Json.ofList Mount.toJson g.mounts),
    ("jupyter", Json.ofOption Jupyter.toJson g.jupyter),
    ("rstudio", if g.rstudio then .object [] else .null),
    ("exposed_ports", Json.ofList Exposure.toJson g.exposures),
    ("num_gpus", Json.ofOption (fun n : Int64 => .ofInt n.toInt) g.gpuCount),
    ("cuda", text g.cuda),
    ("cudnn", text g.cudnn),
    ("apt_packages", texts g.aptPackages),
    ("pypi_commands", texts g.pypiCommands),
    ("r_packages", texts g.rPackages)]

def ofJson? (j : Json) : Option Graph := do
  let text := Json.asOption? Json.asString?
  let texts := Json.asList? Json.asString?
  match ← j.slots? fields with
  | [syntaxVersion, mounts, jupyter, rstudio, exposures, gpuCount, cuda, cudnn, apt, pypi, r] =>
    return {
      syntaxVersion := ← syntaxVersion.defaulted none text
      mounts := ← mounts.defaulted [] (Json.asList? Mount.ofJson?)
      jupyter := ← jupyter.defaulted none (Json.asOption? Jupyter.ofJson?)
      rstudio := ← rstudio.defaulted false rstudioOfJson?
      exposures := ← exposures.defaulted [] (Json.asList? Exposure.ofJson?)
      gpuCount := ← gpuCount.defaulted none (Json.asOption? Json.asInt64?)
      cuda := ← cuda.defaulted none text
      cudnn := ← cudnn.defaulted none text
      aptPackages := ← apt.defaulted [] texts
      pypiCommands := ← pypi.defaulted [] texts
      rPackages := ← r.defaulted [] texts }
  | _ => none

/-- The text of a graph on one line. -/
def written (g : Graph) : String := g.toJson.compactText

/-- The graph of a text, checked. -/
def read (text : String) : Except Error Graph := do
  match (Json.read? text).bind ofJson? with
  | none => throw .malformed
  | some g =>
    g.validate
    return g

end Graph
end DevEnv
