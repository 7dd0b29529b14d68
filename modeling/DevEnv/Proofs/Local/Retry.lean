import DevEnv.Proofs.Local.Removal

/-! Pausing, resuming and destroying an environment once more than needed. What is in the state asked for already is
left as it is, so that a caller who does not know whether an operation went through may repeat it. -/
namespace DevEnv.Local
open DevEnv.Action
open DevEnv.Runtime (Memory)
open DevEnv.Runtime.Memory (Entry Reachable Sound)

variable {τ : Type} {host : (q : Host.Query) → τ → q.Answer × τ} {h : τ} {m m' : Memory} {name : String} {k : Entry}
  {r : Except Error (Option String)} {w : τ × Memory}

section Outcomes

/-- What a pause comes to. -/
inductive PausesTo (m : Memory) (name : String) : Except Error (Option String) → Memory → Prop where
  | absent (hf : m.find? name = none) : PausesTo m name (.error (.environmentNotFound name)) m
  | done {k : Entry} (hf : m.find? name = some k) (hs : k.container.status = .running) :
    PausesTo m name (.ok (some name)) (m.put (k.turned .paused))
  | already {k : Entry} (hf : m.find? name = some k) (hs : k.container.status = .paused) : PausesTo m name (.ok none) m
  | refused {k : Entry} (hf : m.find? name = some k) (hr : k.container.status ≠ .running)
    (hp : k.container.status ≠ .paused) : PausesTo m name (.error (.runtime (.notRunning name))) m

/-- What a resumption comes to. -/
inductive ResumesTo (m : Memory) (name : String) : Except Error (Option String) → Memory → Prop where
  | absent (hf : m.find? name = none) : ResumesTo m name (.error (.environmentNotFound name)) m
  | done {k : Entry} (hf : m.find? name = some k) (hs : k.container.status = .paused) :
    ResumesTo m name (.ok (some name)) (m.put (k.turned .running))
  | already {k : Entry} (hf : m.find? name = some k) (hs : k.container.status ≠ .paused) : ResumesTo m name (.ok none) m

/-- What a destruction comes to. -/
inductive DestroysTo (m : Memory) (name : String) : Except Error (Option String) → Memory → Prop where
  | absent (hf : m.find? name = none) : DestroysTo m name (.ok none) m
  | done {k : Entry} (hf : m.find? name = some k) (hr : Removable k) : DestroysTo m name (.ok (some name)) (destroyed m k)
  | stuck {k : Entry} (hf : m.find? name = some k) (hr : ¬ Removable k) :
    DestroysTo m name (.error (.runtime (refusal k))) m

theorem PausesTo.total (m : Memory) (name : String) : ∃ r m', PausesTo m name r m' := by
  cases hf : m.find? name with
  | none => exact ⟨_, _, .absent hf⟩
  | some k =>
    by_cases hr : k.container.status = .running
    · exact ⟨_, _, .done hf hr⟩
    · by_cases hp : k.container.status = .paused
      · exact ⟨_, _, .already hf hp⟩
      · exact ⟨_, _, .refused hf hr hp⟩

theorem ResumesTo.total (m : Memory) (name : String) : ∃ r m', ResumesTo m name r m' := by
  cases hf : m.find? name with
  | none => exact ⟨_, _, .absent hf⟩
  | some k =>
    by_cases hp : k.container.status = .paused
    · exact ⟨_, _, .done hf hp⟩
    · exact ⟨_, _, .already hf hp⟩

theorem DestroysTo.total (m : Memory) (name : String) : ∃ r m', DestroysTo m name r m' := by
  cases hf : m.find? name with
  | none => exact ⟨_, _, .absent hf⟩
  | some k =>
    by_cases hr : Removable k
    · exact ⟨_, _, .done hf hr⟩
    · exact ⟨_, _, .stuck hf hr⟩

theorem PausesTo.ends (hp : PausesTo m name r m') : Ends (beside host) (pause name) (h, m) r (h, m') := by
  unfold pause
  rw [ends_attempt]
  dsimp only [Memory.answer]
  cases hp with
  | absent hf =>
    rw [Memory.pause, Memory.withFound_of_find?_eq_none hf]
    exact ends_throw.2 ⟨rfl, rfl⟩
  | done hf hs =>
    rw [Memory.pause_of_find? hf, if_pos hs]
    exact ends_pure.2 ⟨rfl, rfl⟩
  | already hf hs =>
    rw [Memory.pause_of_find? hf, if_neg (by simp [hs]), if_pos hs]
    exact ends_pure.2 ⟨rfl, rfl⟩
  | refused hf hr hp =>
    rw [Memory.pause_of_find? hf, if_neg hr, if_neg hp]
    exact ends_throw.2 ⟨rfl, rfl⟩

theorem ResumesTo.ends (hp : ResumesTo m name r m') : Ends (beside host) (resume name) (h, m) r (h, m') := by
  unfold resume
  rw [ends_attempt]
  dsimp only [Memory.answer]
  cases hp with
  | absent hf =>
    rw [Memory.unpause, Memory.withFound_of_find?_eq_none hf]
    exact ends_throw.2 ⟨rfl, rfl⟩
  | done hf hs =>
    rw [Memory.unpause_of_find? hf, if_pos hs]
    exact ends_pure.2 ⟨rfl, rfl⟩
  | already hf hs =>
    rw [Memory.unpause_of_find? hf, if_neg hs]
    exact ends_pure.2 ⟨rfl, rfl⟩

theorem DestroysTo.ends (hm : Sound m) (hd : DestroysTo m name r m') :
    Ends (beside host) (destroy name) (h, m) r (h, m') := by
  cases hd with
  | absent hf => exact ends_destroy_absent hf
  | done hf hr => exact ends_destroy_removable hm hf hr
  | stuck hf hr => exact ends_destroy_stuck hm hf hr

/-- An action ends in one way only. -/
private theorem of_ends {α : Type} {act : Act α} {Comes : Except Error α → Memory → Prop} {x : Except Error α}
    (ends : ∀ y m', Comes y m' → Ends (beside host) act (h, m) y (h, m')) (total : ∃ y m', Comes y m')
    (he : Ends (beside host) act (h, m) x w) : ∃ m', w = (h, m') ∧ Comes x m' := by
  obtain ⟨y, m', hy⟩ := total
  obtain ⟨rfl, rfl⟩ := he.unique (ends y m' hy)
  exact ⟨m', rfl, hy⟩

theorem PausesTo.of_ends (he : Ends (beside host) (pause name) (h, m) r w) : ∃ m', w = (h, m') ∧ PausesTo m name r m' :=
  Local.of_ends (fun _ _ hp => hp.ends) (total m name) he

theorem ResumesTo.of_ends (he : Ends (beside host) (resume name) (h, m) r w) :
    ∃ m', w = (h, m') ∧ ResumesTo m name r m' :=
  Local.of_ends (fun _ _ hp => hp.ends) (total m name) he

theorem DestroysTo.of_ends (hm : Sound m) (he : Ends (beside host) (destroy name) (h, m) r w) :
    ∃ m', w = (h, m') ∧ DestroysTo m name r m' :=
  Local.of_ends (fun _ _ hd => hd.ends hm) (total m name) he

end Outcomes

section Retries

/-- The name leads to a container in this state. -/
def IsIn (m : Memory) (name : String) (status : Status) : Prop :=
  ∃ k, m.find? name = some k ∧ k.container.status = status

/-- An operation on an environment that a caller may repeat. -/
structure Retriable (host : (q : Host.Query) → τ → q.Answer × τ) (m : Memory) (name : String)
    (op : Act (Option String)) : Prop where
  /-- After it has succeeded there is nothing left for it to do. -/
  again : ∀ {h r w}, Ends (beside host) op (h, m) (.ok r) w → Ends (beside host) op w (.ok none) w
  idle : ∀ {h r w}, Ends (beside host) op (h, m) r w → (r = .ok none ∨ ∃ n, r = .error (.environmentNotFound n)) →
    w = (h, m)
  others : ∀ {h r w}, Ends (beside host) op (h, m) r w → ∀ n, (∀ k, m.find? name = some k → n ≠ k.container.name) →
    w.2.containers.get? n = m.containers.get? n

/-- The name of a container that a change of state was asked for leads to it in its new state. -/
private theorem isIn_turned {status : Status} (hm : Sound m) (hf : m.find? name = some k)
    (hc : k.container.status.canBecome status) : IsIn (m.put (k.turned status)) name status :=
  ⟨_, hm.find?_put hf (Entry.continues_turned hc), rfl⟩

private theorem PausesTo.isIn (hm : Sound m) {x : Option String} (hp : PausesTo m name (.ok x) m') :
    IsIn m' name .paused := by
  cases hp with
  | done hf hs => exact isIn_turned hm hf (hs ▸ rfl)
  | already hf hs => exact ⟨_, hf, hs⟩

private theorem ResumesTo.isIn (hm : Sound m) {text : String} (hp : ResumesTo m name (.ok (some text)) m') :
    IsIn m' name .running := by
  cases hp with
  | done hf hs => exact isIn_turned hm hf (hs ▸ rfl)

theorem retriable_pause (hm : Sound m) : Retriable host m name (pause name) where
  again he := by
    obtain ⟨m', rfl, hp⟩ := PausesTo.of_ends he
    obtain ⟨k, hf, hs⟩ := hp.isIn hm
    exact (PausesTo.already hf hs).ends
  idle he hr := by
    obtain ⟨m', rfl, hp⟩ := PausesTo.of_ends he
    cases hp with
    | done hf hs => simp at hr
    | absent _ | already _ _ | refused _ _ _ => rfl
  others he n hn := by
    obtain ⟨m', rfl, hp⟩ := PausesTo.of_ends he
    cases hp with
    | @done k hf hs => exact SortedMap.get?_insert_ne (hn k hf)
    | absent _ | already _ _ | refused _ _ _ => rfl

theorem retriable_resume (hm : Sound m) : Retriable host m name (resume name) where
  again he := by
    obtain ⟨m', rfl, hp⟩ := ResumesTo.of_ends he
    cases hp with
    | @done k hf hs =>
      have hc : k.container.status.canBecome .running := hs ▸ rfl
      obtain ⟨x, hfound, hrunning⟩ := isIn_turned hm hf hc
      exact (ResumesTo.already hfound (by simp [hrunning])).ends
    | already hf hs => exact (ResumesTo.already hf hs).ends
  idle he hr := by
    obtain ⟨m', rfl, hp⟩ := ResumesTo.of_ends he
    cases hp with
    | done hf hs => simp at hr
    | absent _ | already _ _ => rfl
  others he n hn := by
    obtain ⟨m', rfl, hp⟩ := ResumesTo.of_ends he
    cases hp with
    | @done k hf hs => exact SortedMap.get?_insert_ne (hn k hf)
    | absent _ | already _ _ => rfl

/-- After a destruction the name leads nowhere, unless another container goes by it as its identifier. -/
theorem retriable_destroy (hm : Sound m) (hn : Unambiguous m name) : Retriable host m name (destroy name) where
  again he := by
    obtain ⟨m', rfl, hd⟩ := DestroysTo.of_ends hm he
    cases hd with
    | absent hf => exact ends_destroy_absent hf
    | done hf _ => exact ends_destroy_absent (find?_destroyed hm hf hn)
  idle he hr := by
    obtain ⟨m', rfl, hd⟩ := DestroysTo.of_ends hm he
    cases hd with
    | done hf _ => simp at hr
    | absent _ | stuck _ _ => rfl
  others he n hne := by
    obtain ⟨m', rfl, hd⟩ := DestroysTo.of_ends hm he
    cases hd with
    | done hf _ =>
      dsimp only
      rw [containers_destroyed, SortedMap.get?_erase_ne (hne _ hf)]
    | absent _ | stuck _ _ => rfl

/-- What was paused and resumed is as it was before. -/
theorem resume_undoes_pause (hm : Sound m) (hr : IsIn m name .running) :
    ∃ w, Ends (beside host) (pause name) (h, m) (.ok (some name)) w ∧
      Ends (beside host) (resume name) w (.ok (some name)) (h, m) := by
  obtain ⟨k, hf, hs⟩ := hr
  have hpaused : (m.put (k.turned .paused)).find? name = some (k.turned .paused) :=
    hm.find?_put hf (Entry.continues_turned (hs ▸ rfl))
  have hback := calc
    (m.put (k.turned .paused)).put ((k.turned .paused).turned .running)
    _ = m.put ((k.turned .paused).turned .running) := Memory.put_put rfl
    _ = m.put k := by rw [← hs]
    _ = m := Memory.put_of_get? (hm.get?_of_find? hf)
  have hresumes := ResumesTo.done hpaused rfl
  rw [hback] at hresumes
  exact ⟨_, (PausesTo.done hf hs).ends, hresumes.ends⟩

/-- Whatever state a runtime in memory has come to, a pause, a resumption and a destruction may be repeated. They leave
the environment in the state asked for and all others alone, and a resumption undoes a pause. -/
theorem operations_retriable (hm : Reachable m) (host : (q : Host.Query) → τ → q.Answer × τ) (name : String) :
    Retriable host m name (pause name) ∧ Retriable host m name (resume name) ∧
    (Unambiguous m name → Retriable host m name (destroy name)) ∧
    (∀ h r w, Ends (beside host) (pause name) (h, m) (.ok r) w → IsIn w.2 name .paused) ∧
    (∀ h text w, Ends (beside host) (resume name) (h, m) (.ok (some text)) w → IsIn w.2 name .running) ∧
    (IsIn m name .running → ∀ h, ∃ w, Ends (beside host) (pause name) (h, m) (.ok (some name)) w ∧
      Ends (beside host) (resume name) w (.ok (some name)) (h, m)) := by
  have hs := hm.sound
  refine ⟨retriable_pause hs, retriable_resume hs, retriable_destroy hs, ?_, ?_, ?_⟩
  · intro h r w he
    obtain ⟨m', rfl, hp⟩ := PausesTo.of_ends he
    exact hp.isIn hs
  · intro h text w he
    obtain ⟨m', rfl, hp⟩ := ResumesTo.of_ends he
    exact hp.isIn hs
  · exact fun hr h => resume_undoes_pause hs hr

theorem operations_retriable_mnist :
    (∃ w, Ends (beside stillHost) (pause "mnist") ((), Memory.after slowRun {}) (.ok (some "mnist")) w ∧
      Ends (beside stillHost) (pause "mnist") w (.ok none) w ∧
      Ends (beside stillHost) (resume "mnist") w (.ok (some "mnist")) ((), Memory.after slowRun {})) ∧
    ∃ w, Ends (beside stillHost) (destroy "mnist") ((), Memory.after slowRun {}) (.ok (some "mnist")) w ∧
      Ends (beside stillHost) (destroy "mnist") w (.ok none) w := by
  have hm : Reachable (Memory.after slowRun {}) := Reachable.empty.after slowRun
  have hn : Unambiguous (Memory.after slowRun {}) "mnist" := .of_undisputed (hm.sound.undisputed (by decide))
  obtain ⟨hpause, _, hdestroy, _, _, hback⟩ := operations_retriable hm stillHost "mnist"
  have hrunning : IsIn (Memory.after slowRun {}) "mnist" .running :=
    ⟨((Memory.after slowRun {}).find? "mnist").getD default, rfl, rfl⟩
  obtain ⟨w, hp, hr⟩ := hback hrunning ()
  have hd : Ends (beside stillHost) (destroy "mnist") ((), Memory.after slowRun {}) (.ok (some "mnist")) _ := rfl
  exact ⟨⟨w, hp, hpause.again hp, hr⟩, _, hd, (hdestroy hn).again hd⟩

end Retries

end DevEnv.Local
