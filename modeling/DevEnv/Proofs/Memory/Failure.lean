import DevEnv.Proofs.Memory.History

/-! What an operation leaves behind that fails. All of them check before they write, except the start of a container:
it gives out the address first and then finds that the container's state does not let it run. -/
namespace DevEnv.Runtime.Memory

/-- The operation is refused, with the error. -/
inductive Fails (m : Memory) : Operation → Error → Prop where
  | call {c : Call} {x : Error} (refused : (answer c m).1 = .error x) : Fails m (.call c) x
  | setStatus {name : String} {status : Status} {x : Error} (refused : (m.setStatus name status).1 = .error x) :
    Fails m (.setStatus name status) x

/-- A start without delay that finds the host ports free, but the container in a state that running cannot follow: dead,
being removed, or gone. -/
structure Halfway (m : Memory) (name : String) (first e : Entry) : Prop where
  aims : Aims m name first e
  undelayed : m.startDelay = some 0
  free : Free m first e
  stopped : e.container.status ≠ .running
  stuck : ¬ e.container.status.canBecome .running

variable {m : Memory} {op : Operation} {x : Error} {name : String} {first e : Entry}

section Refused

theorem become_of_error {status : Status} (h : (m.become e status).1 = .error x) : (m.become e status).2 = m := by
  rw [become_eq] at h ⊢
  split at h
  · cases h
  · next hc => rw [if_neg hc]

theorem withFound_of_error {α : Type} {act : Entry → Except Error α × Memory}
    (hact : ∀ e, (act e).1 = .error x → (act e).2 = m) (h : (m.withFound name act).1 = .error x) :
    (m.withFound name act).2 = m := by
  unfold withFound at h ⊢
  cases hf : m.find? name with
  | none => rfl
  | some e =>
    rw [hf] at h
    exact hact e h

theorem inspect_of_error (h : (m.inspect name).1 = .error x) : (m.inspect name).2 = m :=
  withFound_of_error (fun _ h => nomatch h) h

theorem create_of_error {spec : Container.Spec} (h : (m.create spec).1 = .error x) : (m.create spec).2 = m := by
  cases hk : m.containers.get? spec.name with
  | none =>
    rw [create_of_get?_eq_none hk] at h
    cases h
  | some e =>
    obtain ⟨text, hc⟩ := create_of_get? hk
    rw [hc]

theorem pause_of_error (h : (m.pause name).1 = .error x) : (m.pause name).2 = m := by
  refine withFound_of_error (fun e h => ?_) h
  split at h
  · rfl
  · exact become_of_error h
  · rfl

theorem unpause_of_error (h : (m.unpause name).1 = .error x) : (m.unpause name).2 = m := by
  refine withFound_of_error (fun e h => ?_) h
  split at h
  · next hs =>
    rw [if_pos hs]
    exact become_of_error h
  · next hs => rw [if_neg hs]

theorem kill_of_error (h : (m.kill name).1 = .error x) : (m.kill name).2 = m := by
  refine withFound_of_error (fun e h => ?_) h
  split at h
  · next hs =>
    rw [if_pos hs]
    exact become_of_error h
  · next hs => rw [if_neg hs]

theorem remove_of_error {forced : Bool} (h : (m.remove name forced).1 = .error x) :
    (m.remove name forced).2 = m := by
  rcases remove_cases m name forced with ⟨e, _, _, _, hr⟩ | ⟨y, hr⟩
  · rw [hr] at h
    cases h
  · rw [hr]

theorem removeImage_of_error {reference : String} (h : (m.removeImage reference).1 = .error x) :
    (m.removeImage reference).2 = m := by
  rcases removeImage_cases m reference with ⟨_, hr⟩ | ⟨_, hr | ⟨text, hr⟩⟩
  · rw [hr] at h
    cases h
  · rw [hr]
  · rw [hr]

theorem setStatus_of_error {status : Status} (h : (m.setStatus name status).1 = .error x) :
    (m.setStatus name status).2 = m :=
  withFound_of_error (fun _ => become_of_error) h

end Refused

section Started

theorem Halfway.start (h : Halfway m name first e) :
    m.start name = (.error (.change ⟨e.container.status, .running⟩), m.put e.addressed) := by
  have hstarted : e.started m.startDelay = e.addressed := by
    rw [h.undelayed]
    exact if_neg h.stuck
  rw [h.aims.start_of_free h.stopped h.free, if_pos ⟨h.undelayed, h.stuck⟩, hstarted]

/-- A start that fails stops halfway, or it leaves everything as it was. -/
theorem halfway_of_start (h : (m.start name).1 = .error x) :
    (∃ first e, Halfway m name first e) ∨ (m.start name).2 = m := by
  rcases start_cases m name with ⟨first, e, ha, hs, hfree⟩ | hsame
  · rw [ha.start_of_free hs hfree] at h
    split at h
    · next hc => exact .inl ⟨first, e, ha, hc.1, hfree, hs, hc.2⟩
    · cases h
  · exact .inr hsame

/-- What fails stops a start halfway, or it leaves everything as it was. -/
theorem Fails.halfway_or_unchanged (h : Fails m op x) :
    (∃ name first e, op = .call (.start name) ∧ Halfway m name first e) ∨ op.perform m = m := by
  cases h with
  | setStatus refused => exact .inr (setStatus_of_error refused)
  | @call c _ refused =>
    cases c with
    | start name =>
      rcases halfway_of_start refused with ⟨first, e, he⟩ | hsame
      · exact .inl ⟨name, first, e, rfl, he⟩
      · exact .inr hsame
    | inspect name => exact .inr (inspect_of_error refused)
    | create spec => exact .inr (create_of_error refused)
    | pause name => exact .inr (pause_of_error refused)
    | unpause name => exact .inr (unpause_of_error refused)
    | kill name => exact .inr (kill_of_error refused)
    | remove name forced => exact .inr (remove_of_error refused)
    | removeImage reference => exact .inr (removeImage_of_error refused)
    | info | list label | inspectImage reference | listImages label => exact .inr rfl

theorem Sound.put_addressed_eq_iff (hm : Sound m) (h : m.find? name = some e) :
    m.put e.addressed = m ↔ e.container.address = address := by
  have hget : m.containers.get? e.container.name = some e := hm.get?_of_find? h
  constructor
  · intro hsame
    have hput : (m.put e.addressed).containers.get? e.container.name = some e.addressed :=
      SortedMap.get?_insert_self ..
    rw [hsame, hget] at hput
    exact congrArg (·.container.address) (Option.some.inj hput)
  · intro ha
    have he : e.addressed = e := by rw [Entry.addressed, ← ha]
    rw [he, put_of_get? hget]

end Started

/-- An operation that fails leaves a runtime exactly as it was, except for a start that stops halfway: the container it
has gone on to has the address of started ones from then on, whether it had one before or not. -/
theorem perform_of_fails (hm : Reachable m) (h : Fails m op x) :
    (op.perform m = m ↔
      ∀ name first e, op = .call (.start name) → Halfway m name first e → e.container.address = address) ∧
      ∀ name first e, op = .call (.start name) → Halfway m name first e →
        x = .change ⟨e.container.status, .running⟩ ∧ op.perform m = m.put e.addressed := by
  have halfway {name : String} {first e : Entry} (hop : op = .call (.start name)) (hh : Halfway m name first e) :
      x = .change ⟨e.container.status, .running⟩ ∧ op.perform m = m.put e.addressed := by
    subst hop
    cases h with
    | call refused =>
      simp only [answer, hh.start, Except.error.injEq] at refused
      exact ⟨refused.symm, by rw [Operation.perform, answer, hh.start]⟩
  refine ⟨⟨fun hsame name first e hop hh => ?_, fun hall => ?_⟩, fun name first e => halfway⟩
  · rw [(halfway hop hh).2] at hsame
    exact (hm.sound.put_addressed_eq_iff hh.aims.again).1 hsame
  · rcases h.halfway_or_unchanged with ⟨name, first, e, hop, hh⟩ | hsame
    · rw [(halfway hop hh).2, hm.sound.put_addressed_eq_iff hh.aims.again]
      exact hall name first e hop hh
    · exact hsame

/-- A container that died before it was ever started. -/
def stillborn : Memory := after [
  .call (.create { name := "mnist", image := "mnist:dev" }),
  .setStatus "mnist" .dead] {}

theorem reachable_stillborn : Reachable stillborn := Reachable.empty.after _

theorem perform_of_fails_unpause :
    Fails stillborn (.call (.unpause "mnist")) (.notPaused "mnist") ∧
      (Operation.call (.unpause "mnist")).perform stillborn = stillborn := by
  have h : Fails stillborn (.call (.unpause "mnist")) (.notPaused "mnist") := .call rfl
  exact ⟨h, (perform_of_fails reachable_stillborn h).1.2 fun _ _ _ hstart => nomatch hstart⟩

/-- A dead container is given an address by the start that fails. -/
theorem start_stillborn :
    Reachable stillborn ∧ Fails stillborn (.call (.start "mnist")) (.change ⟨.dead, .running⟩) ∧
      (stillborn.find? "mnist").map (·.container.address) = some "" ∧
      (((Operation.call (.start "mnist")).perform stillborn).find? "mnist").map (·.container.address) =
        some "172.17.0.2" ∧
      (Operation.call (.start "mnist")).perform stillborn ≠ stillborn := by
  have before : (stillborn.find? "mnist").map (·.container.address) = some "" := by decide
  have after : (((Operation.call (.start "mnist")).perform stillborn).find? "mnist").map (·.container.address) =
      some "172.17.0.2" := by decide
  refine ⟨reachable_stillborn, .call rfl, before, after, fun hsame => ?_⟩
  rw [hsame, before] at after
  exact absurd after (by decide)

end DevEnv.Runtime.Memory
