import DevEnv.Host

/-! Waiting until a probe reports ready, with a deadline and an ear for the user.
A probe that reports ready counts even when the deadline has passed in the meantime. -/
namespace DevEnv

/-- What to wait for and how. -/
structure Watch (I : Interface) where
  name : String
  timeout : Span
  /-- The time from the end of one probe to the next one. -/
  interval : Span
  probe : Action I Bool
  /-- Asked once when the time is over. -/
  lastState : Action I String

namespace Watch
variable {I : Interface}

/-- The time between probes where nothing else is asked for. -/
def usualInterval : Span := .ofSeconds 1

/-- The longest nap, and so the longest time for which a call-off goes unnoticed. -/
def slice : Span := .ofMillis 50

/-- A nap that ends at the first of the points ahead, if not before. -/
def nap (now : Instant) (ahead : List Instant) : Span :=
  ahead.foldl (fun span limit => ⟨min span.nanos (now.spanTo limit).nanos⟩) slice

/-- Where a wait stands: before a probe, or resting until the next one is due. -/
inductive Phase where
  | probing
  | resting (next : Option Instant)
  deriving DecidableEq, Repr

def isReached (now : Instant) (limit : Option Instant) : Bool := limit.any (·.nanos ≤ now.nanos)

/-- Goes on waiting for so many steps at most. A point that the clock cannot show is never reached. -/
def poll (w : Watch I) (deadline : Option Instant) : Nat → Phase → Action I Unit
  | 0, _ => Action.cutOff
  | n + 1, .probing => do
    if ← Action.host .cancelled then throw (.cancelled w.name)
    else if ← w.probe then return ()
    else poll w deadline n (.resting ((← Action.host .now).after? w.interval))
  | n + 1, .resting next => do
    let now ← Action.host .now
    if isReached now deadline then throw (.timeout w.name w.timeout (← w.lastState))
    else if isReached now next then poll w deadline n .probing
    else if ← Action.host .cancelled then throw (.cancelled w.name)
    else
      Action.host (.sleep (nap now (next.toList ++ deadline.toList)))
      poll w deadline n (.resting next)

/-- Waits until the probe reports ready; the first probe is made at once. -/
def await (w : Watch I) (steps : Nat) : Action I Unit := do
  poll w ((← Action.host .now).after? w.timeout) steps .probing

end Watch
end DevEnv
