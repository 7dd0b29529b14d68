import DevEnv.Label

/-! What an environment server is sent and what it replies with, in JSON.
Every field of a reply may be left out; it is empty then. -/
namespace DevEnv.Remote

open DevEnv.Json (Slot)

/-- What a remote environment may use, in the server's own units. -/
structure Resources where
  cpu : String := ""
  memory : String := ""
  gpu : String := ""
  sharedMemory : String := ""
  deriving DecidableEq, Repr, Inhabited

/-- An environment as the server describes it. -/
structure Described where
  name : String := ""
  labels : Labels := ∅
  image : String := ""
  ports : List ServicePort := []
  phase : String := ""
  resources : Resources := {}
  deriving DecidableEq, Inhabited

/-- An image as the server describes it. -/
structure Cataloged where
  name : String := ""
  digest : String := ""
  created : Int64 := 0
  size : Int64 := 0
  labels : Labels := ∅
  deriving DecidableEq, Inhabited

def text (s : Slot) : Option String := s.defaulted "" Json.asString?

def Resources.toJson (r : Resources) : Json :=
  .record [("cpu", .ofString r.cpu), ("memory", .ofString r.memory), ("gpu", .ofString r.gpu),
    ("shm", .ofString r.sharedMemory)]

def Resources.ofJson? (j : Json) : Option Resources := do
  match ← j.slots? ["cpu", "memory", "gpu", "shm"] with
  | [cpu, memory, gpu, sharedMemory] => return ⟨← text cpu, ← text memory, ← text gpu, ← text sharedMemory⟩
  | _ => none

namespace Described

/-- The part that says what the environment consists of. -/
def specOfJson? (j : Json) : Option (String × List ServicePort) := do
  match ← j.slots? ["image", "ports"] with
  | [image, ports] => return (← text image, ← ports.defaulted [] (Json.asList? ServicePort.ofJson?))
  | _ => none

/-- The part that says how the environment is doing. -/
def statusOfJson? (j : Json) : Option String := do
  match ← j.slots? ["phase"] with
  | [phase] => text phase
  | _ => none

def toJson (d : Described) : Json :=
  .record [
    ("name", .ofString d.name),
    ("labels", Json.ofTexts d.labels),
    ("spec", .record [("image", .ofString d.image), ("ports", Json.ofList ServicePort.toJson d.ports)]),
    ("status", .record [("phase", .ofString d.phase)]),
    ("resource", d.resources.toJson)]

def ofJson? (j : Json) : Option Described := do
  match ← j.slots? ["name", "labels", "spec", "status", "resource"] with
  | [name, labels, spec, status, resources] =>
    let (image, ports) ← spec.defaulted ("", []) specOfJson?
    return {
      name := ← text name
      labels := ← labels.defaulted ∅ Json.asTexts?
      image, ports
      phase := ← status.defaulted "" statusOfJson?
      resources := ← resources.defaulted {} Resources.ofJson? }
  | _ => none

/-- The phase of an environment that runs. -/
def running : String := "Running"

/-- The state that a phase stands for. -/
def status (d : Described) : Status :=
  if d.phase = running then .running
  else if d.phase = "Pending" then .created
  else if d.phase = "Succeeded" || d.phase = "Failed" then .exited
  else .dead

end Described

/-- The environment that the server has created. -/
def createdOfJson? (j : Json) : Option Described := do
  match ← j.slots? ["environment", "warnings"] with
  | [environment, warnings] =>
    let _ ← warnings.defaulted [] (Json.asList? Json.asString?)
    environment.required Described.ofJson?
  | _ => none

/-- The items of a listing. -/
def itemsOfJson? {α : Type} (item? : Json → Option α) (j : Json) : Option (List α) := do
  match ← j.slots? ["items"] with
  | [items] => items.defaulted [] (Json.asList? item?)
  | _ => none

def Cataloged.ofJson? (j : Json) : Option Cataloged := do
  match ← j.slots? ["name", "digest", "created", "size", "labels"] with
  | [name, digest, created, size, labels] =>
    return {
      name := ← text name
      digest := ← text digest
      created := ← created.defaulted 0 Json.asInt64?
      size := ← size.defaulted 0 Json.asInt64?
      labels := ← labels.defaulted ∅ Json.asTexts? }
  | _ => none

end DevEnv.Remote
