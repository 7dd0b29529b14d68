import DevEnv.Proofs.Local.Sequence
import DevEnv.Proofs.Memory.History

/-! What a start leaves as it was. One that is refused for want of its image or of GPUs, or because the environment is
still running, has done no more than look; and one of a live environment does no more, unless it is forced. -/
namespace DevEnv.Local
open DevEnv.Action
open DevEnv.Runtime (Call Memory)
open DevEnv.Runtime.Memory (Entry Reachable Sound)

/-- The reasons for which a start is refused by what the runtime holds. -/
inductive Refusal : Error → Prop where
  | imageNotFound (image : String) : Refusal (.imageNotFound image)
  | gpuUnavailable : Refusal .gpuUnavailable
  | stillRunning (name : String) : Refusal (.stillRunning name)

theorem Refusal.kind_ne_invalid {e : Error} (h : Refusal e) : e.kind ≠ .invalid := by
  cases h <;> nofun

theorem not_refusal_runtime (e : Runtime.Error) : ¬ Refusal (.runtime e) := nofun

theorem LayoutFault.not_refusal {o : Options} {a : Resolved} {e : Error} (h : LayoutFault o a e) : ¬ Refusal e := by
  cases h with
  | mount h => exact fun hr => hr.kind_ne_invalid (Container.kind_of_mounts h)
  | exposure h => exact fun hr => hr.kind_ne_invalid (Plan.kind_of_checkReserved h)
  | port reason => nofun

theorem Unready.not_refusal {name : String} {e : Error} (h : Unready name e) : ¬ Refusal e := by
  cases h <;> nofun

/-- Where a start stands: it has not looked for the environment yet, it found a live one that it has to spare, or
nothing is in its way. -/
inductive Gate where
  | unseen
  | shut
  | passed

/-- The calls of a start that matter to an environment that may be there. -/
def gate (name : String) (forced : Bool) : Protocol Runtime.interface Gate where
  allows
    | .unseen, c => Reads c ∨ c = .inspect name
    | .shut, _ => False
    | .passed, _ => True
  next
    | .unseen, .inspect _ => fun
      | .ok c => if !forced && c.status.isLive then .shut else .passed
      | .error _ => .passed
    | s, _ => fun _ => s

/-- The errors that a start may end with where it stands. -/
def Gate.Reports (name : String) : Gate → Error → Prop
  | .unseen, _ => True
  | .shut, e => e = .stillRunning name
  | .passed, e => ¬ Refusal e

section Order
variable {name : String} {forced : Bool} {o : Options} {p : Engine.Patience}

private theorem permits_unseen : (gate name forced).Permits .unseen Reads := by
  rintro c (rfl | ⟨_, rfl⟩)
  · exact ⟨.inl (.inl rfl), fun _ => rfl⟩
  · exact ⟨.inl (.inr ⟨_, rfl⟩), fun _ => rfl⟩

private theorem gate_shut {c : Container} (h : (!forced && c.status.isLive) = true) :
    (gate name forced).next .unseen (.inspect name) (.ok c) = .shut := if_pos h

private theorem gate_passed {c : Container} (h : ¬ (!forced && c.status.isLive) = true) :
    (gate name forced).next .unseen (.inspect name) (.ok c) = .passed := if_neg h

private theorem gate_clean : Follows (gate name forced) (clean name forced) .unseen fun
    | .ok _, t => t = .passed
    | .error e, t => t.Reports name e := by
  refine follows_bind.2 (follows_attempt.2 ⟨.inr rfl, fun r => ?_⟩)
  dsimp only
  split
  · next c =>
    split
    · next hl =>
      rw [gate_shut hl]
      exact (rfl : Error.stillRunning name = _)
    · next hl =>
      rw [gate_passed hl]
      refine follows_call.2 ⟨trivial, fun r => ?_⟩
      cases r with
      | ok _ => rfl
      | error e => exact not_refusal_runtime e
  · rfl
  · exact not_refusal_runtime _

private theorem watches_passed : Watches (gate name forced) name (· = .passed) fun _ => True where
  allows := by
    rintro _ rfl
    trivial
  keeps := by
    rintro _ _ rfl
    rfl
  ready _ _ := trivial

/-- A start that has to spare an environment calls the runtime no more, and once nothing is in its way it is not
refused any more. -/
theorem gate_start : Follows (gate o.name o.forced) (start p o) .unseen fun
    | .ok _, t => t = .passed
    | .error e, t => t.Reports o.name e := by
  rw [start_eq]
  refine follows_bind.2 ((stays_resolve permits_unseen).mono ?_)
  rintro (e | a) _ ⟨rfl, _⟩
  · trivial
  refine follows_bind.2 (follows_pick (fun ssh _ => ?_) fun _ => trivial)
  refine follows_bind.2 (gate_clean.mono ?_)
  rintro (e | _) t ht
  · exact ht
  obtain rfl : t = .passed := ht
  refine follows_bind.2 (follows_layOut.mono ?_)
  rintro (e | ⟨mounts, plan⟩) _ ⟨rfl, hplan⟩
  · exact hplan.not_refusal
  refine follows_bind.2 (follows_call.2 ⟨trivial, fun r => ?_⟩)
  cases r with
  | error e => exact not_refusal_runtime e
  | ok id =>
    have up : Follows (gate o.name o.forced) (bringUp p o) .passed _ :=
      follows_bringUp watches_passed trivial fun _ => rfl
    refine follows_bind.2 (up.mono ?_)
    rintro (e | _) _ ⟨rfl, h⟩
    · exact h.not_refusal
    refine follows_bind.2 (follows_call.2 ⟨trivial, fun r => ?_⟩)
    cases r with
    | ok c => rfl
    | error e => exact not_refusal_runtime e

end Order

section Look
variable {m n : Memory} {name : String} {forced : Bool} {k : Entry}

/-- What a start has made of the runtime where it stands. Past the gate that may be anything, but then there was no live
container to be spared. -/
def Gate.Leaves (m : Memory) (name : String) (forced : Bool) : Gate → Memory → Prop
  | .unseen, n => n = m
  | .shut, n => ∃ k, m.find? name = some k ∧ k.advance.container.status.isLive ∧ n = m.put k.advance
  | .passed, _ => ∀ k, m.find? name = some k → k.advance.container.status.isLive → forced

theorem leaves_next {t : Gate} {c : Call} (hc : (gate name forced).allows t c) (h : t.Leaves m name forced n) :
    ((gate name forced).next t c (Memory.answer c n).1).Leaves m name forced (Memory.answer c n).2 := by
  cases t with
  | unseen =>
    obtain rfl : n = m := h
    rcases hc with (rfl | ⟨_, rfl⟩) | rfl
    · exact rfl
    · exact rfl
    · dsimp only [Memory.answer]
      cases hf : n.find? name with
      | none =>
        rw [Memory.inspect_of_find?_eq_none hf]
        exact fun k hk => nomatch hf.symm.trans hk
      | some k =>
        rw [Memory.inspect_of_find? hf]
        by_cases hl : (!forced && k.advance.container.status.isLive) = true
        · rw [gate_shut hl]
          exact ⟨k, hf, (Bool.and_eq_true_iff.1 hl).2, rfl⟩
        · rw [gate_passed hl]
          intro k' hk' hlive
          obtain rfl : k = k' := Option.some.inj (hf.symm.trans hk')
          simpa [hlive] using hl
  | shut => exact hc.elim
  | passed => exact h

/-- A container that is live once it is looked at was so before, or its time had come. -/
theorem advance_of_isLive (h : k.advance.container.status.isLive) :
    k.advance = k ∨ k.container.status = .created ∧ k.pending = some 0 ∧ k.advance = k.turned .running := by
  by_cases hs : k.container.status = .created
  · cases hp : k.pending with
    | none => exact .inl (by simp [Entry.advance, hs, hp])
    | some i =>
      cases i with
      | zero => exact .inr ⟨hs, rfl, by simp [Entry.advance, hs, hp]⟩
      | succ i => simp [Entry.advance, hs, hp, Status.isLive] at h
  · exact .inl (Entry.advance_of_ne_created hs)

theorem advance_eq_of_isLive (h : k.container.status.isLive) : k.advance = k :=
  Entry.advance_of_ne_created fun hs => by simp [hs, Status.isLive] at h

/-- The gate is shut on a live container that is to be spared, and looking at it has changed nothing. -/
theorem Gate.Leaves.of_isLive {t : Gate} (h : t.Leaves m name false n) (hm : Sound m) (hk : m.find? name = some k)
    (hlive : k.container.status.isLive) : t ≠ .passed ∧ n = m := by
  have hsame : k.advance = k := advance_eq_of_isLive hlive
  cases t with
  | unseen => exact ⟨nofun, h⟩
  | shut =>
    obtain ⟨k', hk', -, rfl⟩ := h
    obtain rfl : k = k' := Option.some.inj (hk.symm.trans hk')
    rw [hsame]
    exact ⟨nofun, Memory.put_of_get? (hm.get?_of_find? hk)⟩
  | passed => exact nomatch h k hk (hsame.symm ▸ hlive)

end Look

section Halts
variable {τ : Type} {host : (q : Host.Query) → τ → q.Answer × τ} {h : τ} {m : Memory} {w : τ × Memory} {o : Options}

theorem halts_attempt {c : Call} : Halts (beside host) (attempt c) w := halts_ask

theorem halts_call {c : Call} : Halts (beside host) (call c) w :=
  halts_attempt.bind fun _ _ _ => halts_ofExcept

theorem halts_pick {pinned : UInt16} : Halts (beside host) (Plan.pick freePort pinned) w := by
  unfold Plan.pick
  split
  · exact halts_host.bind fun _ _ _ => halts_ofExcept
  · exact halts_pure

theorem halts_clean {name : String} {forced : Bool} : Halts (beside host) (clean name forced) w := by
  refine halts_attempt.bind fun r _ _ => ?_
  split
  · split
    · exact halts_throw
    · exact halts_call
  · exact halts_pure
  · exact halts_throw

private theorem halts_graphOf {given : Option Graph} {image : String} :
    Halts (beside host) (graphOf given image) w := by
  unfold graphOf
  split
  · exact halts_pure
  · refine halts_attempt.bind fun r _ _ => ?_
    split
    · exact halts_ofExcept.bind fun _ _ _ => halts_pure
    · exact halts_throw
    · exact halts_throw

private theorem halts_devicesOf : Halts (beside host) (devicesOf o) w := by
  refine halts_ofExcept.bind fun devices _ _ => ?_
  split
  · exact halts_pure
  · have asked (w : τ × Memory) : Halts (beside host) hasGpu w := halts_call.bind fun _ _ _ => halts_pure
    refine (asked _).bind fun offered _ _ => ?_
    split
    · exact halts_pure
    · exact halts_throw

/-- What a start settles first is settled without waiting. -/
theorem halts_resolve : Halts (beside host) (resolve o) w := by
  have source (w : τ × Memory) : Halts (beside host) (sourceOf o) w := by
    unfold sourceOf
    split
    · exact halts_pure
    · exact halts_throw
  have image (w : τ × Memory) : Halts (beside host) (imageOf o) w := by
    unfold imageOf
    split
    · exact halts_pure
    · exact halts_throw
  exact halts_ofExcept.bind fun _ _ _ => (source _).bind fun (given, _) _ _ => (image _).bind fun _ _ _ =>
    halts_graphOf.bind fun _ _ _ => halts_ofExcept.bind fun _ _ _ => halts_devicesOf.bind fun _ _ _ => halts_pure

/-- A start that has to spare an environment does not come to wait. -/
theorem halts_start_of_isLive (hm : Sound m) {p : Engine.Patience} {k : Entry} (hk : m.find? o.name = some k)
    (hlive : k.advance.container.status.isLive) (hforced : o.forced = false) :
    Halts (beside host) (start p o) (h, m) := by
  rw [start_eq]
  refine halts_resolve.bind fun a w ha => ?_
  obtain ⟨-, rfl⟩ := ends_resolve.1 ha
  refine halts_pick.bind fun ssh ⟨h', m'⟩ hp => ?_
  obtain ⟨(rfl : m' = m), -⟩ := ends_pick hp
  refine halts_clean.bind fun _ w hc => ?_
  obtain ⟨_, -, hc⟩ := ends_clean hm hc
  cases hc with
  | absent hn => exact nomatch hn.symm.trans hk
  | @removed k' hk' free =>
    obtain rfl : k = k' := Option.some.inj (hk.symm.trans hk')
    exact nomatch hforced.symm.trans (free hlive)

end Halts

section Start
variable {τ : Type} {host : (q : Host.Query) → τ → q.Answer × τ} {h : τ} {m : Memory} {o : Options}
  {p : Engine.Patience}

/-- A start that ends stands somewhere: there it has made of the runtime what it may, and reports what it may. -/
private theorem ends_at_gate {r : Except Error Started} {w : τ × Memory}
    (he : Ends (beside host) (start p o) (h, m) r w) : ∃ t : Gate, t.Leaves m o.name o.forced w.2 ∧ match r with
      | .ok _ => t = .passed
      | .error e => t.Reports o.name e := by
  obtain ⟨t, ht, hr⟩ := follows_ends (Gate.Leaves m o.name o.forced) (fun _ _ _ hc hl => leaves_next hc hl)
    gate_start rfl he
  refine ⟨t, ht, ?_⟩
  cases r <;> exact hr

/-- A call of a start is one that it may make where it stands. -/
private theorem asks_at_gate {c : Call} {w : τ × Memory}
    (hc : (start p o).run.Asks (beside host) (h, m) (.inr c) w) :
    ∃ t : Gate, (gate o.name o.forced).allows t c ∧ t.Leaves m o.name o.forced w.2 := by
  refine Program.Follows.asks (fun t (w : τ × Memory) => t.Leaves m o.name o.forced w.2) ?_ gate_start rfl hc
  rintro t (q | c) ⟨h, n⟩ hq hl
  · exact hl
  · exact leaves_next hq hl

/-- A refused start stands before the gate, where looking has changed nothing or let the container run. -/
private theorem refused_start_leaves (hm : Sound m)
    (hid : ∀ n x, m.containers.get? n = some x → x.container.id.text ≠ o.name) {e : Error} {w : τ × Memory}
    (he : Ends (beside host) (start p o) (h, m) (.error e) w) (hr : Refusal e) :
    w.2 = m ∨ e = .stillRunning o.name ∧ ∃ k, m.containers.get? o.name = some k ∧
      k.container.status = .created ∧ k.pending = some 0 ∧ w.2 = m.put (k.turned .running) := by
  obtain ⟨t, hleaves, hreports⟩ := ends_at_gate he
  cases t with
  | unseen => exact .inl hleaves
  | shut =>
    obtain ⟨k, hf, hlive, hw⟩ := hleaves
    have hk : m.containers.get? o.name = some k := (Memory.undisputed_of_no_id hid).get?_of_find? hf
    rcases advance_of_isLive hlive with hsame | ⟨hs, hp, hturned⟩
    · rw [hsame, Memory.put_of_get? (hm.get?_of_find? hf)] at hw
      exact .inl hw
    · rw [hturned] at hw
      exact .inr ⟨hreports, k, hk, hs, hp, hw⟩
  | passed => exact absurd hr hreports

section Live
variable {k : Entry} (hm : Sound m) (hk : m.find? o.name = some k) (hlive : k.container.status.isLive)
  (hforced : o.forced = false)
include hm hk hlive hforced

private theorem live_start_asks {c : Call} {w : τ × Memory}
    (hc : (start p o).run.Asks (beside host) (h, m) (.inr c) w) : (Reads c ∨ c = .inspect o.name) ∧ w.2 = m := by
  obtain ⟨t, hallowed, ht⟩ := asks_at_gate hc
  rw [hforced] at ht
  obtain ⟨hne, hw⟩ := ht.of_isLive hm hk hlive
  cases t with
  | unseen => exact ⟨hallowed, hw⟩
  | shut => exact hallowed.elim
  | passed => exact absurd rfl hne

private theorem live_start_fails : ∃ e h', Ends (beside host) (start p o) (h, m) (.error e) (h', m) := by
  have hstill : k.advance.container.status.isLive := by rwa [advance_eq_of_isLive hlive]
  obtain ⟨r, ⟨h', m'⟩, he⟩ : Halts (beside host) (start p o) (h, m) :=
    halts_start_of_isLive hm hk hstill hforced
  obtain ⟨t, ht, hr⟩ := ends_at_gate he
  rw [hforced] at ht
  obtain ⟨hne, rfl⟩ := ht.of_isLive hm hk hlive
  cases r with
  | ok started => exact absurd hr hne
  | error e => exact ⟨e, h', he⟩

end Live

/-- A start that is refused has changed nothing, but that a container that was about to run may run now. A start that
finds a live container of its name and is not forced only reads and looks, leaves everything as it was and fails. -/
theorem start_spares (hm : Reachable m)
    (hid : ∀ n x, m.containers.get? n = some x → x.container.id.text ≠ o.name) :
    (∀ e h' m', Ends (beside host) (start p o) (h, m) (.error e) (h', m') → Refusal e →
      m' = m ∨ e = .stillRunning o.name ∧ ∃ k, m.containers.get? o.name = some k ∧
        k.container.status = .created ∧ k.pending = some 0 ∧ m' = m.put (k.turned .running)) ∧
    ∀ k, m.containers.get? o.name = some k → k.container.status.isLive → o.forced = false →
      (∀ c w, (start p o).run.Asks (beside host) (h, m) (.inr c) w → (Reads c ∨ c = .inspect o.name) ∧ w.2 = m) ∧
        ∃ e h', Ends (beside host) (start p o) (h, m) (.error e) (h', m) := by
  refine ⟨fun e h' m' he hr => refused_start_leaves hm.sound hid he hr, fun k hk hlive hforced => ?_⟩
  have hf : m.find? o.name = some k := (Memory.undisputed_of_no_id hid).find?_of_get? hk
  exact ⟨fun c w hc => live_start_asks hm.sound hf hlive hforced hc, live_start_fails hm.sound hf hlive hforced⟩

/-- A runtime with a container that runs as soon as it is looked at. -/
def awaited : Memory := Memory.after [
  .configure (.ofList [("runc", "runc")]) "6.1.0-mock" (some 1),
  .call (.create { name := "mnist", image := "mnist:dev" }),
  .call (.start "mnist"),
  .call (.inspect "mnist")] {}

theorem reachable_awaited : Reachable awaited := Reachable.empty.after _

/-- A start that is not forced. -/
def modest : Options :=
  { image := some "mnist:dev", name := "mnist", buildContext := "/home/me/mnist", source := .docker (some {}) [] }

/-- A first start lets the container run, and so does not take it away; a second one changes nothing. -/
theorem start_spares_awaited :
    ∃ running, Ends (beside stillHost) (start ⟨⟨0⟩, 10⟩ modest) ((), awaited) (.error (.stillRunning "mnist"))
        ((), running) ∧
      (∃ k, awaited.containers.get? "mnist" = some k ∧ k.container.status = .created ∧ k.pending = some 0 ∧
        running = awaited.put (k.turned .running)) ∧
      ∃ e h', Ends (beside stillHost) (start ⟨⟨0⟩, 10⟩ modest) ((), running) (.error e) (h', running) := by
  let running : Memory := (Memory.answer (.inspect "mnist") awaited).2
  have first : Ends (beside stillHost) (start ⟨⟨0⟩, 10⟩ modest) ((), awaited) (.error (.stillRunning "mnist"))
      ((), running) := rfl
  have hchanged : running ≠ awaited := fun hsame =>
    absurd (congrArg (fun m => (m.find? "mnist").map (·.container.status)) hsame) (by decide)
  have hrunning : Reachable running := reachable_awaited.call _
  have hshort : modest.name.length < 64 := by decide
  refine ⟨running, first, ?_, ?_⟩
  · have hspared := (start_spares reachable_awaited (reachable_awaited.sound.id_ne hshort)).1 _ _ _ first
      (.stillRunning _)
    exact (hspared.resolve_left hchanged).2
  · exact ((start_spares hrunning (hrunning.sound.id_ne hshort)).2 _ rfl rfl rfl).2

end Start
end DevEnv.Local
