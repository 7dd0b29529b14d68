import DevEnv.Proofs.Wait.Course

/-! How a wait ends. Up to its last steps it looks at the clock and at the user, naps, and is told that
nothing is ready; the last steps alone decide the result. -/
namespace DevEnv.Watch
open Event

/-- The answer to a probe. -/
def Event.answer? : Event → Option (Except Error Bool)
  | probed answer => some answer
  | _ => none

/-- The answers to all probes, in order. -/
def answers (es : List Event) : List (Except Error Bool) := es.filterMap Event.answer?

/-- A step after which a wait goes on. -/
inductive Event.Idle : Event → Prop
  | reading (t : Instant) : Idle (reading t)
  | heard : Idle (heard false)
  | slept (span : Span) : Idle (slept span)
  | probed : Idle (probed (.ok false))

/-- The last steps of a wait that began at a time. -/
inductive Ending (name : String) (timeout : Span) (deadline : Option Instant) : List Event → Except Error Unit → Prop
  | ready : Ending name timeout deadline [probed (.ok true)] (.ok ())
  | fault {e : Error} : Ending name timeout deadline [probed (.error e)] (.error e)
  | calledOff : Ending name timeout deadline [heard true] (.error (.cancelled name))
  | late {t : Instant} {text : String} (h : isReached t deadline = true) :
    Ending name timeout deadline [reading t, told text] (.error (.timeout name timeout text))

variable {name : String} {timeout interval : Span} {deadline : Option Instant}

/-- Idle steps, and last steps that decide. -/
def Concludes (name : String) (timeout : Span) (deadline : Option Instant) (es : List Event)
    (r : Except Error Unit) : Prop :=
  ∃ before last, es = before ++ last ∧ (∀ e ∈ before, e.Idle) ∧ Ending name timeout deadline last r

theorem Concludes.cons {e : Event} {es : List Event} {r : Except Error Unit} (he : e.Idle)
    (h : Concludes name timeout deadline es r) : Concludes name timeout deadline (e :: es) r := by
  obtain ⟨before, last, rfl, hbefore, hlast⟩ := h
  exact ⟨e :: before, last, rfl, List.forall_mem_cons.2 ⟨he, hbefore⟩, hlast⟩

theorem Ending.concludes {last : List Event} {r : Except Error Unit} (h : Ending name timeout deadline last r) :
    Concludes name timeout deadline last r := ⟨[], last, rfl, nofun, h⟩

theorem Course.concludes {steps : Nat} {phase : Phase} {es : List Event} {r : Except Error Unit}
    (h : Course name timeout interval deadline steps phase es (some r)) :
    Concludes name timeout deadline es r := by
  generalize hr : some r = res at h
  induction h with
  | cutOff => cases hr
  | calledOff =>
    cases hr
    exact Ending.calledOff.concludes
  | fault =>
    cases hr
    exact Ending.fault.concludes.cons .heard
  | ready =>
    cases hr
    exact Ending.ready.concludes.cons .heard
  | notReady h ih => exact (((ih hr).cons (.reading _)).cons .probed).cons .heard
  | late hd =>
    cases hr
    exact (Ending.late hd).concludes
  | due hd hn h ih => exact (ih hr).cons (.reading _)
  | calledOffResting hd hn =>
    cases hr
    exact Ending.calledOff.concludes.cons (.reading _)
  | slumber hd hn h ih => exact (((ih hr).cons (.slept _)).cons .heard).cons (.reading _)

/-- How a wait comes to its result. -/
structure Outcome (name : String) (timeout : Span) (es : List Event) (r : Except Error Unit) : Prop where
  /-- It succeeds exactly if the last probe reports ready. -/
  ready : r = .ok () ↔ (answers es).getLast? = some (.ok true)
  /-- The error of a probe is handed on, and nothing happens after it. -/
  fault : ∀ e, .error e ∈ answers es → r = .error e ∧ es.getLast? = some (probed (.error e))
  /-- Any other error is that the user was heard to call off the wait, or that the deadline was seen to have passed. -/
  failure : ∀ e, r = .error e → .error e ∉ answers es →
    e = .cancelled name ∧ es.getLast? = some (heard true) ∨ ∃ text, e = .timeout name timeout text ∧ told text ∈ es
  /-- The last state is asked for once, at the end, after a look at the clock that shows the deadline. -/
  last : ∀ text, told text ∈ es → r = .error (.timeout name timeout text) ∧
    ∃ start deadline t before, es = reading start :: (before ++ [reading t, told text]) ∧
      start.after? timeout = some deadline ∧ deadline.nanos ≤ t.nanos ∧ ∀ other, told other ∉ before
  /-- The first probe is made unless the user is heard to have called off the wait already. -/
  first : ∃ start off rest, es = reading start :: heard off :: rest ∧ (off = false → answers rest ≠ [])

section Idle
variable {before last : List Event}

theorem answers_append (es fs : List Event) : answers (es ++ fs) = answers es ++ answers fs := List.filterMap_append

theorem eq_false_of_mem_answers (h : ∀ e ∈ before, e.Idle) {a : Except Error Bool} (ha : a ∈ answers before) :
    a = .ok false := by
  obtain ⟨e, he, hanswer⟩ := List.mem_filterMap.1 ha
  cases h e he <;> simp_all [Event.answer?]

theorem told_notMem (h : ∀ e ∈ before, e.Idle) (text : String) : told text ∉ before := by
  intro hmem
  cases h _ hmem

/-- No answer before the last steps reports ready. -/
theorem getLast?_answers_ne (h : ∀ e ∈ before, e.Idle) (hlast : answers last = []) :
    (answers (before ++ last)).getLast? ≠ some (.ok true) := by
  intro hready
  rw [answers_append, hlast, List.append_nil] at hready
  have hfalse := eq_false_of_mem_answers h (List.mem_of_getLast? hready)
  cases hfalse

end Idle

theorem getLast?_answers_probed (es : List Event) (answer : Except Error Bool) :
    (answers (es ++ [probed answer])).getLast? = some answer := by
  rw [answers_append]
  exact List.getLast?_concat

/-- The first round looks at the user, and goes on to a probe. -/
theorem Course.first {steps : Nat} {es : List Event} {r : Except Error Unit}
    (h : Course name timeout interval deadline steps .probing es (some r)) :
    ∃ off rest, es = heard off :: rest ∧ (off = false → answers rest ≠ []) := by
  cases h with
  | calledOff => exact ⟨true, [], rfl, nofun⟩
  | fault => exact ⟨false, _, rfl, fun _ => List.cons_ne_nil _ _⟩
  | ready => exact ⟨false, _, rfl, fun _ => List.cons_ne_nil _ _⟩
  | notReady => exact ⟨false, _, rfl, fun _ => List.cons_ne_nil _ _⟩

section Ending
variable {before last : List Event} {r : Except Error Unit}

theorem Ending.ready_iff (hidle : ∀ e ∈ before, e.Idle) (h : Ending name timeout deadline last r) :
    r = .ok () ↔ (answers (before ++ last)).getLast? = some (.ok true) := by
  cases h with
  | ready => exact iff_of_true rfl (getLast?_answers_probed _ _)
  | fault =>
    rw [getLast?_answers_probed]
    exact iff_of_false nofun nofun
  | calledOff => exact iff_of_false nofun (getLast?_answers_ne hidle rfl)
  | late hd => exact iff_of_false nofun (getLast?_answers_ne hidle rfl)

theorem Ending.fault_of_mem (hidle : ∀ e ∈ before, e.Idle) (h : Ending name timeout deadline last r) {e : Error}
    (he : .error e ∈ answers (before ++ last)) :
    r = .error e ∧ (before ++ last).getLast? = some (probed (.error e)) := by
  rw [answers_append] at he
  rcases List.mem_append.1 he with he | he
  · cases eq_false_of_mem_answers hidle he
  · cases h with
    | fault =>
      obtain rfl : e = _ := Except.error.inj (List.mem_singleton.1 he)
      exact ⟨rfl, List.getLast?_concat⟩
    | ready => cases List.mem_singleton.1 he
    | calledOff => cases he
    | late hd => cases he

theorem Ending.failure_cases (h : Ending name timeout deadline last r) {e : Error} (he : r = .error e)
    (hown : .error e ∉ answers (before ++ last)) :
    e = .cancelled name ∧ (before ++ last).getLast? = some (heard true) ∨
      ∃ text, e = .timeout name timeout text ∧ told text ∈ before ++ last := by
  cases h with
  | ready => cases he
  | fault =>
    cases he
    exact absurd (List.mem_of_getLast? (getLast?_answers_probed _ _)) hown
  | calledOff =>
    cases he
    exact .inl ⟨rfl, List.getLast?_concat⟩
  | late hd =>
    cases he
    exact .inr ⟨_, rfl, List.mem_append_right _ (List.mem_cons_of_mem _ List.mem_cons_self)⟩

theorem Ending.late_of_told (hidle : ∀ e ∈ before, e.Idle) (h : Ending name timeout deadline last r) {text : String}
    (htext : told text ∈ before ++ last) :
    ∃ t, last = [reading t, told text] ∧ r = .error (.timeout name timeout text) ∧ isReached t deadline = true := by
  rcases List.mem_append.1 htext with htext | htext
  · exact absurd htext (told_notMem hidle text)
  · cases h with
    | @late t _ hd =>
      rcases List.mem_cons.1 htext with htext | htext
      · cases htext
      · cases List.mem_singleton.1 htext
        exact ⟨t, rfl, rfl, hd⟩
    | ready => cases List.mem_singleton.1 htext
    | fault => cases List.mem_singleton.1 htext
    | calledOff => cases List.mem_singleton.1 htext

end Ending

/-- Every wait that ends has an outcome of this kind, whatever the clock shows and whenever the user calls it off. -/
theorem await_outcome {steps : Nat} {es : List Event} {r : Except Error Unit}
    (h : Action.Runs ((posed name timeout interval).await steps) es (some r)) : Outcome name timeout es r := by
  obtain ⟨start, rest, rfl, hcourse⟩ := course_of_runs_await h
  obtain ⟨off, more, hfirst, hprobe⟩ := hcourse.first
  obtain ⟨before, last, hrest, hbefore, hlast⟩ := hcourse.concludes
  have hidle : ∀ e ∈ reading start :: before, e.Idle := List.forall_mem_cons.2 ⟨.reading start, hbefore⟩
  refine ⟨?_, ?_, ?_, ?_, start, off, more, by rw [hfirst], hprobe⟩ <;> rw [hrest, ← List.cons_append]
  · exact hlast.ready_iff hidle
  · intro e he
    exact hlast.fault_of_mem hidle he
  · intro e he hown
    exact hlast.failure_cases he hown
  · intro text htext
    obtain ⟨t, rfl, hr, hd⟩ := hlast.late_of_told hidle htext
    obtain ⟨deadline, hdeadline, hreached⟩ := isReached_eq_true_iff.1 hd
    exact ⟨hr, start, deadline, t, before, rfl, hdeadline, hreached, told_notMem hbefore⟩

/-- The deadline has passed by the second look at the clock after the only probe. -/
theorem await_outcome_overdue :
    Outcome "demo" ⟨30⟩ [reading ⟨0⟩, heard false, probed (.ok false), reading ⟨1⟩, reading ⟨30⟩, told "created"]
      (.error (.timeout "demo" ⟨30⟩ "created")) := by
  have hruns : Action.Runs ((posed "demo" ⟨30⟩ ⟨5⟩).await 2)
      [reading ⟨0⟩, heard false, probed (.ok false), reading ⟨1⟩, reading ⟨30⟩, told "created"]
      (some (.error (.timeout "demo" ⟨30⟩ "created"))) := .ask (.ask (.ask (.ask (.ask (.ask (.done _))))))
  exact await_outcome hruns

end DevEnv.Watch
