import Mathlib.Logic.Function.Iterate
import DevEnv.Proofs.Memory.History

/-! Starts with a delay. A start that is accepted sets a countdown whatever state the container is in, but inspections
count down in the created state only, so that a container started in another one never runs. And where the name of the
container that is found first is another one's identifier, it may be that other one that is started. -/
namespace DevEnv.Runtime.Memory

namespace Entry
variable {e : Entry} {n : Nat}

theorem iterate_advance_of_ne_created (h : e.container.status ≠ .created) (k : Nat) : advance^[k] e = e :=
  Function.iterate_fixed (advance_of_ne_created h) k

/-- A created container runs with the inspection that finds its countdown at the end. -/
theorem status_iterate_advance (hs : e.container.status = .created) (hp : e.pending = some n) (k : Nat) :
    (advance^[k + 1] e).container.status = if n ≤ k then .running else .created := by
  induction k generalizing e n with
  | zero => cases n <;> simp [advance, hs, hp]
  | succ k ih =>
    rw [Function.iterate_succ_apply]
    cases n with
    | zero =>
      have hrun : e.advance.container.status = .running := by simp [advance, hs, hp]
      have hne : e.advance.container.status ≠ .created := by rw [hrun]; decide
      rw [iterate_advance_of_ne_created hne, hrun, if_pos (Nat.zero_le _)]
    | succ n =>
      have hcreated : e.advance.container.status = .created := by simp [advance, hs, hp]
      have hpending : e.advance.pending = some n := by simp [advance, hs, hp]
      rw [ih hcreated hpending]
      simp only [Nat.add_le_add_iff_right]

/-- The state in which the inspection behind `k` others finds a container after a start with this delay. -/
def foundIn (e : Entry) (delay k : Nat) : Status :=
  if delay = 0 ∨ e.container.status = .created ∧ delay ≤ k then .running else e.container.status

theorem status_iterate_started (hrun : n = 0 → e.container.status.canBecome .running) (k : Nat) :
    (advance^[k + 1] (e.started (some n))).container.status = e.foundIn n k := by
  cases n with
  | zero =>
    have hstarted : e.started (some 0) = e.addressed.turned .running := if_pos (hrun rfl)
    have hne : (e.started (some 0)).container.status ≠ .created := by simp [hstarted]
    rw [iterate_advance_of_ne_created hne, hstarted]
    exact (if_pos (.inl rfl)).symm
  | succ n =>
    have hstatus : (e.started (some (n + 1))).container.status = e.container.status := rfl
    by_cases hs : e.container.status = .created
    · rw [status_iterate_advance (hstatus.trans hs) rfl]
      simp [foundIn, hs]
    · rw [iterate_advance_of_ne_created (hstatus ▸ hs), hstatus]
      simp [foundIn, hs]

end Entry

section Inspections
variable {m : Memory} {x : String} {names : List String} {e : Entry}

/-- What inspections leave of a runtime, one after the other. -/
def inspected (names : List String) (m : Memory) : Memory := after (names.map fun name => .call (.inspect name)) m

theorem find?_inspected (hm : Sound m) (h : ∀ y ∈ x :: names, m.find? y = some e) :
    (inspected names m).find? x = some (Entry.advance^[names.length] e) := by
  induction names generalizing m e with
  | nil => exact h x (List.mem_singleton_self x)
  | cons y names ih =>
    have hy : m.find? y = some e := h y (by simp)
    have hstep : (m.inspect y).2 = m.put e.advance := by rw [inspect_of_find? hy]
    have hrest : ∀ z ∈ x :: names, (m.put e.advance).find? z = some e.advance := by
      intro z hz
      have hmem : z ∈ x :: y :: names := by
        rcases List.mem_cons.1 hz with rfl | hz
        · exact List.mem_cons_self
        · exact List.mem_cons_of_mem _ (List.mem_cons_of_mem _ hz)
      exact hm.find?_put (h z hmem) e.continues_advance
    calc (inspected (y :: names) m).find? x
      _ = (inspected names (m.inspect y).2).find? x := rfl
      _ = some (Entry.advance^[names.length] e.advance) := by rw [hstep, ih (hm.put hy e.continues_advance) hrest]
      _ = some (Entry.advance^[(y :: names).length] e) := rfl

/-- Behind inspections of these names the one of another name reports a container in this state. -/
def Reports (m : Memory) (names : List String) (name : String) (status : Status) : Prop :=
  ∃ c, ((inspected names m).inspect name).1 = .ok c ∧ c.status = status

theorem Reports.unique {status status' : Status} (h : Reports m names x status) (h' : Reports m names x status') :
    status = status' := by
  obtain ⟨c, hc, rfl⟩ := h
  obtain ⟨c', hc', rfl⟩ := h'
  rw [Except.ok.inj (hc.symm.trans hc')]

theorem reports_iff (hm : Sound m) (h : ∀ y ∈ x :: names, m.find? y = some e) {status : Status} :
    Reports m names x status ↔ (Entry.advance^[names.length + 1] e).container.status = status := by
  unfold Reports
  rw [inspect_of_find? (find?_inspected hm h), Function.iterate_succ_apply']
  simp

/-- The same name is inspected again and again. -/
theorem forall_mem_replicate (hf : m.find? x = some e) (k : Nat) :
    ∀ y ∈ x :: List.replicate k x, m.find? y = some e := by
  intro y hy
  rw [← List.replicate_succ] at hy
  rw [List.eq_of_mem_replicate hy, hf]

theorem reports_replicate_iff (hm : Sound m) (hf : m.find? x = some e) {k : Nat} {status : Status} :
    Reports m (List.replicate k x) x status ↔ (Entry.advance^[k + 1] e).container.status = status := by
  rw [reports_iff hm (forall_mem_replicate hf k), List.length_replicate]

end Inspections

/-- The inspection behind `n` others finds the container of `e` running, and no earlier one does, by whatever names it
is inspected. -/
structure RunsAfter (m : Memory) (e : Entry) (n : Nat) : Prop where
  waits : ∀ names x, names.length < n → (∀ y ∈ x :: names, m.find? y = some e) →
    ∃ status, Reports m names x status ∧ status ≠ .running
  runs : ∀ names x, names.length = n → (∀ y ∈ x :: names, m.find? y = some e) → Reports m names x .running

variable {m : Memory} {name : String} {first e : Entry} {n : Nat}

/-- What is left of the countdown tells when a created container runs; no other one begins to. -/
theorem runsAfter_iff_pending (hm : Sound m) (hf : m.find? name = some e) : RunsAfter m e n ↔
    e.container.status = .created ∧ e.pending = some n ∨ e.container.status = .running ∧ n = 0 := by
  constructor
  · intro h
    have hruns : (Entry.advance^[n + 1] e).container.status = .running :=
      (reports_replicate_iff hm hf).1 (h.runs _ _ List.length_replicate (forall_mem_replicate hf n))
    have hwaits (k : Nat) (hk : k < n) : (Entry.advance^[k + 1] e).container.status ≠ .running := by
      obtain ⟨status, hseen, hne⟩ :=
        h.waits (List.replicate k name) name (by rwa [List.length_replicate]) (forall_mem_replicate hf k)
      rwa [(reports_replicate_iff hm hf).1 hseen]
    by_cases hs : e.container.status = .created
    · cases hp : e.pending with
      | none =>
        have hfix : e.advance = e := by simp [Entry.advance, hs, hp]
        rw [Function.iterate_fixed hfix, hs] at hruns
        cases hruns
      | some p =>
        rw [Entry.status_iterate_advance hs hp] at hruns
        have hle : p ≤ n := Decidable.byContradiction fun hlt => by
          rw [if_neg hlt] at hruns
          cases hruns
        have hge : n ≤ p := Nat.not_lt.1 fun hlt => hwaits p hlt (by
          rw [Entry.status_iterate_advance hs hp, if_pos (Nat.le_refl p)])
        exact .inl ⟨hs, congrArg some (Nat.le_antisymm hle hge)⟩
    · rw [Entry.iterate_advance_of_ne_created hs] at hruns
      refine .inr ⟨hruns, Nat.eq_zero_of_not_pos fun hpos => hwaits 0 hpos ?_⟩
      rwa [Entry.iterate_advance_of_ne_created hs]
  · rintro (⟨hs, hp⟩ | ⟨hs, rfl⟩)
    · refine ⟨fun names x hlt hall => ⟨.created, ?_, by decide⟩, fun names x hlen hall => ?_⟩
      · rw [reports_iff hm hall, Entry.status_iterate_advance hs hp, if_neg (Nat.not_le_of_lt hlt)]
      · rw [reports_iff hm hall, Entry.status_iterate_advance hs hp, if_pos (Nat.le_of_eq hlen.symm)]
    · refine ⟨fun names x hlt => absurd hlt (Nat.not_lt_zero _), fun names x hlen hall => ?_⟩
      have hne : e.container.status ≠ .created := by rw [hs]; decide
      rw [reports_iff hm hall, Entry.iterate_advance_of_ne_created hne, hs]

/-- A start that is accepted. -/
structure Accepted (m : Memory) (name : String) (first e : Entry) : Prop where
  aims : Aims m name first e
  ok : (m.start name).1 = .ok ()

namespace Accepted

/-- The start has found the ports free and, without a delay, a state that running may follow. -/
theorem start_eq (h : Accepted m name first e) (hs : e.container.status ≠ .running) :
    (m.start name).2 = m.put (e.started m.startDelay) ∧
      (m.startDelay = some 0 → e.container.status.canBecome .running) := by
  have hok := h.ok
  by_cases hfree : Free m first e
  · rw [h.aims.start_of_free hs hfree] at hok ⊢
    refine ⟨rfl, fun hd => Decidable.byContradiction fun hc => ?_⟩
    rw [if_pos ⟨hd, hc⟩] at hok
    cases hok
  · obtain ⟨text, htaken⟩ := h.aims.start_of_not_free hs hfree
    rw [htaken] at hok
    cases hok

/-- A container that was started finds its countdown set, and what counts is whether it was just created. -/
theorem started_runs_iff (h : Accepted m name first e) (hs : e.container.status ≠ .running)
    (hd : m.startDelay = some n) : (e.started (some n)).container.status = .created ∧
      (e.started (some n)).pending = some n ∨ (e.started (some n)).container.status = .running ∧ n = 0 ↔
      n = 0 ∨ e.container.status = .created := by
  cases n with
  | zero =>
    have hrun : e.started (some 0) = e.addressed.turned .running := if_pos ((h.start_eq hs).2 hd)
    simp [hrun]
  | succ n => simp [Entry.started]

/-- A start that goes on to another container leaves the one alone that its name leads to. -/
theorem find?_first (hm : Sound m) (h : Accepted m name first e) (hne : e ≠ first) :
    (m.start name).2.find? name = some first := by
  rcases start_cases m name with ⟨first', e', ha, hs, hfree⟩ | hsame
  · obtain ⟨rfl, rfl⟩ := h.aims.unique ha
    have hname : first.container.name ≠ e.container.name := by
      intro hname
      have hfirst := hm.get?_of_find? ha.found
      rw [hname, hm.get?_of_find? ha.again] at hfirst
      exact hne (Option.some.inj hfirst)
    rw [ha.start_of_free hs hfree]
    exact hm.find?_put_ne (hm.get?_of_find? ha.again) (e.continues_started _).toAkin ha.found hname
  · rw [hsame]
    exact h.aims.found

/-- A start that is accepted goes on from the container that its name leads to, to the one that is started: the same one,
if no other one is identified by the name. The one that is started, unless it runs already, runs after exactly the
delay if there is none or if it was just created; otherwise every inspection finds it as it was. If it is another one,
the container that the name leads to stays as it was, and runs after exactly the delay only if it was on its way. -/
theorem runsAfter_iff (hm : Reachable m) (hd : m.startDelay = some n) (h : Accepted m name first e) :
    (Undisputed m name → e = first) ∧
    (e.container.status ≠ .running →
      (m.start name).2.find? first.container.name = some (e.started (some n)) ∧
      (e = first → (m.start name).2.find? name = some (e.started (some n))) ∧
      (∀ names x, (∀ y ∈ x :: names, (m.start name).2.find? y = some (e.started (some n))) →
        Reports (m.start name).2 names x (e.foundIn n names.length)) ∧
      (RunsAfter (m.start name).2 (e.started (some n)) n ↔ n = 0 ∨ e.container.status = .created)) ∧
    (e ≠ first → (m.start name).2.find? name = some first ∧
      (RunsAfter (m.start name).2 first n ↔
        first.container.status = .created ∧ first.pending = some n ∨ first.container.status = .running ∧ n = 0)) := by
  refine ⟨fun hu => hu.eq_of_aims hm.sound h.aims, fun hs => ?_, fun hne => ?_⟩
  · obtain ⟨hput, hrun⟩ := h.start_eq hs
    rw [hd] at hput hrun
    have hc := e.continues_started (some n)
    have hsound : Sound (m.start name).2 := hput ▸ hm.sound.put h.aims.again hc
    have hagain : (m.start name).2.find? first.container.name = some (e.started (some n)) := by
      rw [hput]
      exact hm.sound.find?_put h.aims.again hc
    refine ⟨hagain, fun hsame => ?_, fun names x hall => ?_, ?_⟩
    · rw [hput]
      exact hm.sound.find?_put (hsame ▸ h.aims.found) hc
    · rw [reports_iff hsound hall]
      exact Entry.status_iterate_started (fun hn => hrun (congrArg some hn)) _
    · rw [runsAfter_iff_pending hsound hagain, h.started_runs_iff hs hd]
  · have hfound := h.find?_first hm.sound hne
    exact ⟨hfound, runsAfter_iff_pending (hm.call (.start name)).sound hfound⟩

end Accepted

/-- A runtime that starts with a delay, and a container in it. -/
def slow (delay : Nat) : Memory := after [
  .configure ∅ "" (some delay),
  .call (.create { name := "mnist", image := "mnist:dev" })] {}

theorem reachable_slow (delay : Nat) : Reachable (slow delay) := Reachable.empty.after _

theorem runsAfter_iff_created : ∃ e, Accepted (slow 2) "mnist" e e ∧ e.container.status = .created ∧
    RunsAfter ((slow 2).start "mnist").2 (e.started (some 2)) 2 := by
  obtain ⟨e, he⟩ : ∃ e, (slow 2).find? "mnist" = some e := ⟨_, rfl⟩
  have hs : e.container.status = .created ∧ (slow 2).find? e.container.name = some e := by
    cases he
    exact ⟨rfl, rfl⟩
  have h : Accepted (slow 2) "mnist" e e := ⟨⟨he, hs.2⟩, rfl⟩
  have hruns := (h.runsAfter_iff (reachable_slow 2) rfl).2.1 (by rw [hs.1]; decide)
  exact ⟨e, h, hs.1, hruns.2.2.2.2 (.inr hs.1)⟩

/-- A container that has ended is started with a delay, and is still found ended by the second inspection. -/
theorem ended_not_runsAfter :
    let m := (Operation.setStatus "mnist" .exited).perform (slow 1)
    Reachable m ∧ m.startDelay = some 1 ∧ ∃ e, Accepted m "mnist" e e ∧ e.container.status ≠ .running ∧
      (m.start "mnist").2.find? "mnist" = some (e.started (some 1)) ∧
      Reports (m.start "mnist").2 ["mnist"] "mnist" .exited ∧
      ¬ RunsAfter (m.start "mnist").2 (e.started (some 1)) 1 := by
  intro m
  obtain ⟨e, he⟩ : ∃ e, m.find? "mnist" = some e := ⟨_, rfl⟩
  have hs : e.container.status = .exited ∧ m.find? e.container.name = some e := by
    cases he
    exact ⟨rfl, rfl⟩
  have hfound : (m.start "mnist").2.find? "mnist" = some (e.started (some 1)) := by
    cases he
    rfl
  have hreport : Reports (m.start "mnist").2 ["mnist"] "mnist" .exited := ⟨_, rfl, rfl⟩
  have hne : e.container.status ≠ .running := by
    rw [hs.1]
    decide
  refine ⟨(reachable_slow 1).perform _, rfl, e, ⟨⟨he, hs.2⟩, rfl⟩, hne, hfound, hreport, fun hruns => ?_⟩
  have hrun : Reports (m.start "mnist").2 ["mnist"] "mnist" .running := by
    apply hruns.runs _ _ rfl
    intro y hy
    obtain rfl : y = "mnist" := by simpa using hy
    exact hfound
  exact absurd (hreport.unique hrun) (by decide)

end DevEnv.Runtime.Memory
