import DevEnv.Context
import DevEnv.Label
import DevEnv.Options
import DevEnv.Runtime.Error

/-! Why an operation on environments fails, and the kinds of failure that callers tell apart. -/
namespace DevEnv

inductive Error where
  | runtime (e : Runtime.Error)
  | options (e : Options.Error)
  | label (e : Label.Error)
  | graph (e : Graph.Error)
  | device (e : Gpu.SpecError)
  | config (e : Contexts.Error)
  | invalidOptions (text : String)
  | environmentNotFound (name : String)
  | imageNotFound (name : String)
  | stillRunning (name : String)
  | portAllocated (text : String)
  | gpuUnavailable
  | timeout (name : String) (timeout : Span) (lastState : String)
  | cancelled (name : String)
  | unsupported (runner operation : String)
  | http (status : Nat) (text : String)
  | transport (reason : String)
  | io (reason : String)
  | serialization (reason : String)
  deriving DecidableEq

/-- Coarse kinds of failure. -/
inductive Error.Kind where
  | notFound
  | conflict
  | resourceExhausted
  | timeout
  | unsupported
  | invalid
  | transport
  deriving DecidableEq, Repr

namespace Error

def message : Error → String
  | runtime e => s!"runtime error: {e.message}"
  | options e => s!"invalid options: {e.message}"
  | label e => s!"label error: {e.message}"
  | graph e => s!"build graph error: {e.message}"
  | device e => s!"invalid GPU request: {e.message}"
  | config e => s!"config error: {e.message}"
  | invalidOptions text => s!"invalid options: {text}"
  | environmentNotFound name => s!"environment not found: {name}"
  | imageNotFound name => s!"image not found: {name}"
  | stillRunning name => s!"environment '{name}' is still running, destroy it first or start with --force"
  | portAllocated text => s!"port is already allocated in the host: {text}"
  | gpuUnavailable => "GPU is required but the nvidia container runtime is not installed"
  | timeout name span lastState =>
    s!"timeout {span.render}: environment '{name}' did not start (last state: {lastState})"
  | cancelled name => s!"cancelled while waiting for environment '{name}'"
  | unsupported runner operation => s!"{operation} is not supported by the {runner} runner"
  | http status text => s!"envd-server returned HTTP {Text.ofNat status}: {text}"
  | transport reason => s!"envd-server request failed: {reason}"
  | io reason => s!"I/O error: {reason}"
  | serialization reason => s!"serialization error: {reason}"

def kind : Error → Kind
  | environmentNotFound _ | imageNotFound _ => .notFound
  | http status _ => if status = 404 then .notFound else if status = 409 then .conflict else .transport
  | stillRunning _ => .conflict
  | portAllocated _ | gpuUnavailable => .resourceExhausted
  | timeout .. | cancelled _ => .timeout
  | unsupported .. => .unsupported
  | options _ | label _ | graph _ | device _ | config _ | invalidOptions _ => .invalid
  | runtime e => match e with
    | .notFound _ => .notFound
    | .alreadyPaused _ | .notPaused _ | .notRunning _ | .conflict _ | .change _ => .conflict
    | .portAllocated _ => .resourceExhausted
    | .io _ | .unavailable _ | .failed _ | .unparsable _ => .transport
  | transport _ | io _ | serialization _ => .transport

end Error
end DevEnv
