import DevEnv.Status
import DevEnv.Text.Split

/-! What can go wrong in a container runtime, and how a failed command's complaint is told apart. -/
namespace DevEnv.Runtime

inductive Error where
  | io (reason : String)
  | unavailable (text : String)
  | notFound (name : String)
  | alreadyPaused (name : String)
  | notPaused (name : String)
  | notRunning (name : String)
  | portAllocated (text : String)
  | conflict (text : String)
  | failed (text : String)
  | unparsable (text : String)
  | change (e : Status.BadChange)
  deriving DecidableEq, Repr

namespace Error

def message : Error → String
  | io reason => s!"runtime I/O error: {reason}"
  | unavailable text => s!"runtime '{text}' is not available on this system"
  | notFound name => s!"no such object: {name}"
  | alreadyPaused name => s!"container '{name}' is already paused"
  | notPaused name => s!"container '{name}' is not paused"
  | notRunning name => s!"container '{name}' is not running"
  | portAllocated text => s!"port is already allocated: {text}"
  | conflict text => s!"conflict: {text}"
  | failed text => s!"runtime execution failed: {text}"
  | unparsable text => s!"failed to parse runtime output: {text}"
  | change e => e.message

/-- The error that the complaint of a failed command about a target describes; the first phrase found decides. -/
def ofComplaint (target complaint : String) : Error :=
  let text := Text.trim complaint
  let has (phrases : List String) : Bool := phrases.any (Text.hasMark · text)
  if has ["No such container", "No such object", "No such image"] then notFound target
  else if has ["is already paused"] then alreadyPaused target
  else if has ["is not paused"] then notPaused target
  else if has ["is not running"] then notRunning target
  else if has ["port is already allocated"] then portAllocated text
  else if has ["is already in use", "cannot remove a running container", "unable to remove"] then conflict text
  else failed text

end Error
end DevEnv.Runtime
