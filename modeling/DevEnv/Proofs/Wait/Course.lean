import DevEnv.Proofs.Exchange
import DevEnv.Wait

/-! The course of a wait whose probe and last question are answered from outside, round by round.
Every other wait is this one with actions in the place of the two questions. -/
namespace DevEnv.Watch

/-- What a wait asks beside the host. -/
inductive Inquiry
  | probe
  | lastState

/-- A probe may end in an error. -/
abbrev Inquiry.Answer : Inquiry → Type
  | probe => Except Error Bool
  | lastState => String

def Inquiry.interface : Interface := ⟨Inquiry, Inquiry.Answer⟩

/-- The watch that leaves its probe and its last question to the surroundings. -/
def posed (name : String) (timeout interval : Span) : Watch Inquiry.interface where
  name := name
  timeout := timeout
  interval := interval
  probe := do Action.ofExcept id (← Action.ask (I := Inquiry.interface) .probe)
  lastState := Action.ask (I := Inquiry.interface) .lastState

/-- A step of a wait that can be seen from outside. -/
abbrev Event : Type := Exchange (Host.interface.sum Inquiry.interface)

namespace Event

@[match_pattern] abbrev reading (t : Instant) : Event := ⟨.inl .now, t⟩
/-- A look at whether the user has called off the wait. -/
@[match_pattern] abbrev heard (off : Bool) : Event := ⟨.inl .cancelled, off⟩
@[match_pattern] abbrev slept (span : Span) : Event := ⟨.inl (.sleep span), ()⟩
@[match_pattern] abbrev probed (answer : Except Error Bool) : Event := ⟨.inr .probe, answer⟩
@[match_pattern] abbrev told (text : String) : Event := ⟨.inr .lastState, text⟩

end Event

theorem isReached_eq_true_iff {t : Instant} {limit : Option Instant} :
    isReached t limit = true ↔ ∃ point, limit = some point ∧ point.nanos ≤ t.nanos := by
  cases limit <;> simp [isReached]

section Interpret
variable {I : Interface}

/-- The actions in the place of the questions. -/
def calls (probe : Action I Bool) (lastState : Program (Host.interface.sum I) String) :
    (q : (Host.interface.sum Inquiry.interface).Query) →
      Program (Host.interface.sum I) ((Host.interface.sum Inquiry.interface).Answer q)
  | .inl q => Program.query (I := Host.interface.sum I) (.inl q)
  | .inr .probe => probe.run
  | .inr .lastState => lastState

/-- The tree of a round before a probe. -/
theorem run_poll_probing (w : Watch I) (deadline : Option Instant) (n : Nat) :
    (w.poll deadline (n + 1) .probing).run = .ask (.inl .cancelled) fun off : Bool =>
      if off then .done (.error (.cancelled w.name))
      else w.probe.run.bind fun
        | .error e => .done (.error e)
        | .ok ready => if ready then .done (.ok ()) else .ask (.inl .now) fun t : Instant =>
            (w.poll deadline n (.resting (t.after? w.interval))).run := by
  rw [poll, Action.run_host_bind]
  refine congrArg (Program.ask _) (funext fun off => ?_)
  cases off with
  | true => rfl
  | false =>
    refine (Action.run_bind _ _).trans (congrArg (Program.bind _) (funext fun answer => ?_))
    rcases answer with e | _ | _ <;> rfl

/-- The tree of a round between two probes. -/
theorem run_poll_resting (w : Watch I) (deadline next : Option Instant) (n : Nat) :
    (w.poll deadline (n + 1) (.resting next)).run = .ask (.inl .now) fun t : Instant =>
      if isReached t deadline then w.lastState.run.bind fun
        | .error e => .done (.error e)
        | .ok text => .done (.error (.timeout w.name w.timeout text))
      else if isReached t next then (w.poll deadline n .probing).run
      else .ask (.inl .cancelled) fun off : Bool =>
        if off then .done (.error (.cancelled w.name))
        else .ask (.inl (.sleep (nap t (next.toList ++ deadline.toList)))) fun _ =>
          (w.poll deadline n (.resting next)).run := by
  rw [poll, Action.run_host_bind]
  refine congrArg (Program.ask _) (funext fun t => ?_)
  cases hd : isReached t deadline with
  | true =>
    rw [if_pos rfl, if_pos rfl]
    refine (Action.run_bind _ _).trans (congrArg (Program.bind _) (funext fun answer => ?_))
    cases answer <;> rfl
  | false =>
    rw [if_neg Bool.false_ne_true, if_neg Bool.false_ne_true]
    cases hn : isReached t next with
    | true => rfl
    | false =>
      rw [if_neg Bool.false_ne_true, if_neg Bool.false_ne_true, Action.run_host_bind]
      refine congrArg (Program.ask _) (funext fun off => ?_)
      cases off <;> rfl

/-- Every wait is the one with posed questions, with its own actions in their place. -/
theorem poll_eq_interpret {w : Watch I} {lastState : Program (Host.interface.sum I) String}
    (h : w.lastState = ExceptT.lift lastState) (deadline : Option Instant) (steps : Nat) (phase : Phase) :
    (w.poll deadline steps phase).run =
      ((posed w.name w.timeout w.interval).poll deadline steps phase).run.interpret (calls w.probe lastState) := by
  induction steps generalizing phase with
  | zero => cases phase <;> rfl
  | succ n ih =>
    cases phase with
    | probing =>
      rw [run_poll_probing, run_poll_probing]
      refine congrArg (Program.ask _) (funext fun off => ?_)
      cases off with
      | true => rfl
      | false =>
        refine congrArg (Program.bind _) (funext fun answer => ?_)
        rcases answer with e | _ | _
        · rfl
        · exact congrArg (Program.ask _) (funext fun t => ih _)
        · rfl
    | resting next =>
      rw [run_poll_resting, run_poll_resting]
      refine congrArg (Program.ask _) (funext fun t : Instant => ?_)
      change _ = Program.interpret (calls w.probe lastState) (if isReached t deadline then _ else _)
      cases hd : isReached t deadline with
      | true =>
        rw [if_pos rfl, if_pos rfl, h]
        exact Program.bind_assoc _ _ _
      | false =>
        rw [if_neg Bool.false_ne_true, if_neg Bool.false_ne_true]
        cases hn : isReached t next with
        | true => exact ih _
        | false =>
          rw [if_neg Bool.false_ne_true, if_neg Bool.false_ne_true]
          refine congrArg (Program.ask _) (funext fun off => ?_)
          cases off with
          | true => rfl
          | false => exact congrArg (Program.ask _) (funext fun _ => ih _)

theorem await_eq_interpret {w : Watch I} {lastState : Program (Host.interface.sum I) String}
    (h : w.lastState = ExceptT.lift lastState) (steps : Nat) :
    (w.await steps).run =
      ((posed w.name w.timeout w.interval).await steps).run.interpret (calls w.probe lastState) :=
  congrArg (Program.ask _) (funext fun t : Instant => poll_eq_interpret h (t.after? w.timeout) steps .probing)

end Interpret

section Course
variable {name : String} {timeout interval : Span} {deadline : Option Instant}

open Event

/-- The rounds of a wait with a deadline: what each of them sees, and how it ends or goes on. -/
inductive Course (name : String) (timeout interval : Span) (deadline : Option Instant) :
    Nat → Phase → List Event → Option (Except Error Unit) → Prop
  | cutOff {phase : Phase} : Course name timeout interval deadline 0 phase [] none
  /-- The user calls off the wait before a probe. -/
  | calledOff {n : Nat} :
    Course name timeout interval deadline (n + 1) .probing [heard true] (some (.error (.cancelled name)))
  | fault {n : Nat} {e : Error} : Course name timeout interval deadline (n + 1) .probing
      [heard false, probed (.error e)] (some (.error e))
  | ready {n : Nat} :
    Course name timeout interval deadline (n + 1) .probing [heard false, probed (.ok true)] (some (.ok ()))
  | notReady {n : Nat} {t : Instant} {es : List Event} {r : Option (Except Error Unit)}
      (h : Course name timeout interval deadline n (.resting (t.after? interval)) es r) :
    Course name timeout interval deadline (n + 1) .probing (heard false :: probed (.ok false) :: reading t :: es) r
  | late {n : Nat} {next : Option Instant} {t : Instant} {text : String} (hd : isReached t deadline = true) :
    Course name timeout interval deadline (n + 1) (.resting next) [reading t, told text]
      (some (.error (.timeout name timeout text)))
  | due {n : Nat} {next : Option Instant} {t : Instant} {es : List Event} {r : Option (Except Error Unit)}
      (hd : isReached t deadline = false) (hn : isReached t next = true)
      (h : Course name timeout interval deadline n .probing es r) :
    Course name timeout interval deadline (n + 1) (.resting next) (reading t :: es) r
  /-- The user calls off the wait between two probes. -/
  | calledOffResting {n : Nat} {next : Option Instant} {t : Instant} (hd : isReached t deadline = false)
      (hn : isReached t next = false) : Course name timeout interval deadline (n + 1) (.resting next)
      [reading t, heard true] (some (.error (.cancelled name)))
  | slumber {n : Nat} {next : Option Instant} {t : Instant} {es : List Event} {r : Option (Except Error Unit)}
      (hd : isReached t deadline = false) (hn : isReached t next = false)
      (h : Course name timeout interval deadline n (.resting next) es r) :
    Course name timeout interval deadline (n + 1) (.resting next)
      (reading t :: heard false :: slept (nap t (next.toList ++ deadline.toList)) :: es) r

/-- There are no other rounds. -/
theorem course_of_runs {steps : Nat} {phase : Phase} {es : List Event} {r : Option (Except Error Unit)}
    (h : Action.Runs ((posed name timeout interval).poll deadline steps phase) es r) :
    Course name timeout interval deadline steps phase es r := by
  induction steps generalizing phase es r with
  | zero =>
    obtain ⟨rfl, rfl⟩ : es = [] ∧ r = none := by cases phase <;> exact Program.runs_unfinished.1 h
    exact .cutOff
  | succ n ih =>
    cases phase with
    | probing =>
      rw [Action.Runs, run_poll_probing] at h
      obtain ⟨off, rest, rfl, hoff⟩ := Program.runs_ask.1 h
      cases off with
      | true =>
        obtain ⟨rfl, rfl⟩ := Program.runs_done.1 hoff
        exact .calledOff
      | false =>
        obtain ⟨answer, rest, rfl, hanswer⟩ := Program.runs_ask.1 hoff
        rcases answer with e | _ | _
        · obtain ⟨rfl, rfl⟩ := Program.runs_done.1 hanswer
          exact .fault
        · obtain ⟨t, rest, rfl, hrest⟩ := Program.runs_ask.1 hanswer
          exact .notReady (ih hrest)
        · obtain ⟨rfl, rfl⟩ := Program.runs_done.1 hanswer
          exact .ready
    | resting next =>
      rw [Action.Runs, run_poll_resting] at h
      obtain ⟨t, rest, rfl, ht⟩ := Program.runs_ask.1 h
      split at ht
      · next hd =>
        obtain ⟨text, rest, rfl, hend⟩ := Program.runs_ask.1 ht
        obtain ⟨rfl, rfl⟩ := Program.runs_done.1 hend
        exact .late hd
      · next hd =>
        split at ht
        · next hn => exact .due (Bool.eq_false_iff.2 hd) hn (ih ht)
        · next hn =>
          have hd := Bool.eq_false_iff.2 hd
          have hn := Bool.eq_false_iff.2 hn
          obtain ⟨off, rest, rfl, hoff⟩ := Program.runs_ask.1 ht
          cases off with
          | true =>
            obtain ⟨rfl, rfl⟩ := Program.runs_done.1 hoff
            exact .calledOffResting hd hn
          | false =>
            obtain ⟨-, rest, rfl, hrest⟩ := Program.runs_ask.1 hoff
            exact .slumber hd hn (ih hrest)

/-- A wait looks at the clock and then goes through its rounds. -/
theorem course_of_runs_await {steps : Nat} {es : List Event} {r : Option (Except Error Unit)}
    (h : Action.Runs ((posed name timeout interval).await steps) es r) :
    ∃ t rest, es = reading t :: rest ∧ Course name timeout interval (t.after? timeout) steps .probing rest r := by
  obtain ⟨t, rest, rfl, hrest⟩ := Action.runs_host_bind.1 h
  exact ⟨t, rest, rfl, course_of_runs hrest⟩

end Course

end DevEnv.Watch
