import DevEnv.Gpu.Spec
import DevEnv.Graph
import DevEnv.Status

/-! What a caller asks of the GPUs, and how the ways of asking are weighed against each other. -/
namespace DevEnv.Gpu

inductive Request where
  | none
  /-- So many devices; below zero all of them. -/
  | count (n : Int64)
  | spec (text : String)
  deriving DecidableEq, Repr, Inhabited

namespace Request

def isEnabled : Request → Bool
  | none => false
  | count n => n ≠ 0
  | spec text => !Text.isAllBlank text

/-- The requests for devices; there are none when nothing is asked for. -/
def devices : Request → Except SpecError (List Device)
  | none => .ok []
  | count n => .ok (if n = 0 then [] else [.ofCount n])
  | spec text => if Text.isAllBlank text then .ok [] else (Spec.read text).map ([·])

/-- The number of devices in all, below zero once a request is for all of them. -/
def tally (n : Int64) : List Device → Int64
  | [] => n
  | d :: ds =>
    if d.count < 0 then -1
    else tally (n + if d.ids.isEmpty then d.count else Int64.ofNat d.ids.length) ds

/-- The number of devices, for a control plane that takes nothing else. -/
def total (r : Request) : Except SpecError Int64 := r.devices.map (tally 0)

def ofCount (n : Int64) : Request := if n = 0 then none else count n

/-- What a build graph asks for by itself: its count, or every device for a CUDA base. -/
def ofGraph (g : Graph) : Request :=
  match g.gpuCount.filter (· ≠ 0) with
  | some n => count n
  | .none => if g.wantsGpu then count (-1) else none

/-- Picks among the ways of asking: a refusal, a specification, a count, and last the build graph. -/
def resolve (spec? : Option String) (count? : Option Int64) (graph? : Option Graph) (refused : Bool) : Request :=
  if refused then none
  else match spec?.filter (fun s => !Text.isAllBlank s), count?, graph? with
    | some text, _, _ => spec (Text.trim text)
    | .none, some n, _ => ofCount n
    | .none, .none, some g => ofGraph g
    | .none, .none, .none => none

def toJson : Request → Json
  | none => .ofString "none"
  | count n => .record [("count", .ofInt n.toInt)]
  | spec text => .record [("spec", .ofString text)]

def ofJson? (j : Json) : Option Request :=
  if j.asWord? = some "none" then some none
  else do
    match ← j.members? with
    | [(key, value)] =>
      if key = "count" then value.asInt64?.map count
      else if key = "spec" then value.asString?.map spec
      else .none
    | _ => .none

end Request
end DevEnv.Gpu
