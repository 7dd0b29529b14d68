import DevEnv.Text.Blank
import DevEnv.Json.Decode

/-! The states of an environment and the changes between them.
Created and live environments may end by themselves; only removal takes one away. -/
namespace DevEnv

/-- The observed state of an environment; `notCreated` stands for one that does not exist. -/
inductive Status where
  | notCreated
  | created
  | running
  | paused
  | restarting
  | removing
  | exited
  | dead
  deriving DecidableEq, Repr, Inhabited

namespace Status

def all : List Status := [notCreated, created, running, paused, restarting, removing, exited, dead]

def name : Status → String
  | notCreated => "not-created"
  | created => "created"
  | running => "running"
  | paused => "paused"
  | restarting => "restarting"
  | removing => "removing"
  | exited => "exited"
  | dead => "dead"

/-- Whether the processes of the environment exist; those of a paused one are frozen, not ended. -/
def isLive : Status → Bool
  | running | paused | restarting => true
  | _ => false

/-- The states that may follow directly. -/
def successors : Status → List Status
  | notCreated => [created, exited, dead]
  | created => [running, removing, exited, dead]
  | running => [paused, restarting, removing, exited, dead]
  | paused => [running, removing, exited, dead]
  | restarting => [running, removing, exited, dead]
  | removing => [notCreated]
  | exited => [running, removing]
  | dead => [removing]

def canBecome (s t : Status) : Bool := s.successors.contains t

/-- A change between states that do not follow each other. -/
structure BadChange where
  before : Status
  after : Status
  deriving DecidableEq, Repr

def BadChange.message (e : BadChange) : String :=
  s!"invalid state transition: {e.before.name} -> {e.after.name}"

/-- Refuses a change to a state that may not follow. -/
def change (s t : Status) : Except BadChange Unit := if s.canBecome t then .ok () else .error ⟨s, t⟩

def named? (s : String) : Option Status := all.find? (·.name = s)

/-- The state a text names, in letters of either case and with blanks around it. -/
def read (s : String) : Except String Status :=
  let word := Text.lower (Text.trim s)
  match named? word with
  | some status => .ok status
  | none => .error word

def unknownMessage (word : String) : String := s!"unknown environment status: '{word}'"

def toJson (s : Status) : Json := .ofString s.name

end Status

/-- The word of a choice without content, which may also be the key of a member with value null. -/
def Json.asWord? : Json → Option String
  | .object [(key, .null)] => (unescape key).map String.ofList
  | j => j.asString?

def Status.ofJson? (j : Json) : Option Status := j.asWord?.bind named?

end DevEnv
