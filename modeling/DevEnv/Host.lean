import DevEnv.Error
import DevEnv.Program

/-! What programs ask of the host they run on: its clock, a free port, and whether the user has called off the run.
Actions are programs that may also end in an error. -/
namespace DevEnv

/-- A question to the host. -/
inductive Host.Query where
  | now
  | sleep (span : Span)
  | cancelled
  | freePort

/-- A port may be refused for a reason. -/
abbrev Host.Query.Answer : Host.Query → Type
  | now => Instant
  | sleep _ => Unit
  | cancelled => Bool
  | freePort => Except String UInt16

def Host.interface : Interface := ⟨Host.Query, Host.Query.Answer⟩

/-- A program that asks the host and further surroundings. -/
abbrev Hosted (I : Interface) (α : Type) : Type := Program (Host.interface.sum I) α

/-- A program of this kind that may end in an error. -/
abbrev Action (I : Interface) (α : Type) : Type := ExceptT Error (Program (Host.interface.sum I)) α

namespace Action
variable {I : Interface}

def host (q : Host.Query) : Action I q.Answer := ExceptT.lift (Program.query (I := Host.interface.sum I) (.inl q))

/-- Asks the surroundings beside the host. -/
def ask (q : I.Query) : Action I (I.Answer q) := ExceptT.lift (Program.query (I := Host.interface.sum I) (.inr q))

/-- A step that fails without asking anything. -/
def ofExcept {ε α : Type} (wrap : ε → Error) : Except ε α → Action I α
  | .ok a => pure a
  | .error e => throw (wrap e)

/-- A run that is cut off here. -/
def cutOff {α : Type} : Action I α := ExceptT.mk .unfinished

/-- The outcome of an action as a value. -/
def outcome {α : Type} (a : Action I α) : Action I (Except Error α) := ExceptT.lift a.run

end Action
end DevEnv
