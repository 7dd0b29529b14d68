import DevEnv.Proofs.Local.Sequence
import DevEnv.Proofs.Memory.History

/-! Taking environments away by force. It fails only for a container that is being removed already or that is gone
but for its entry, and no call brings a container there. -/
namespace DevEnv.Local
open DevEnv.Action
open DevEnv.Runtime (Call Memory)
open DevEnv.Runtime.Memory (Entry Reachable Sound)

/-- The state of a container allows the runtime to remove it. -/
def Removable (k : Entry) : Prop := k.container.status ≠ .removing ∧ k.container.status ≠ .notCreated

/-- What is left of a runtime without a container. -/
abbrev without (m : Memory) (k : Entry) : Memory := { m with containers := m.containers.erase k.container.name }

/-- The refusal to remove a container in the state it is in. -/
abbrev refusal (k : Entry) : Runtime.Error := .change ⟨k.container.status, .removing⟩

/-- No container but the one that the name leads to has the name, or goes by it as its identifier. -/
def Unambiguous (m : Memory) (name : String) : Prop :=
  ∀ n x, m.containers.get? n = some x → n = name ∨ x.container.id.text = name → m.find? name = some x

section Containers
variable {m : Memory} {name : String} {k : Entry}

theorem removable_iff : Removable k ↔ k.container.status.canBecome .removing := by
  unfold Removable
  cases k.container.status <;> decide

theorem Removable.advance (hr : Removable k) : Removable k.advance := by
  rcases k.advance_cases with ha | ⟨_, _, ha⟩ | ⟨_, ha⟩ <;> rw [ha]
  · exact hr
  · exact hr
  · exact ⟨nofun, nofun⟩

/-- A container that may not be removed is neither live nor on its way to running. -/
theorem isLive_of_not_removable (hr : ¬ Removable k) : k.container.status.isLive = false := by
  rw [removable_iff] at hr
  cases hs : k.container.status <;> first | rfl | exact absurd (hs ▸ rfl) hr

theorem advance_of_not_removable (hr : ¬ Removable k) : k.advance = k := by
  refine Entry.advance_of_ne_created fun hs => hr ?_
  rw [removable_iff, hs]
  rfl

theorem put_advance_of_not_removable (hm : Sound m) (hf : m.find? name = some k) (hr : ¬ Removable k) :
    m.put k.advance = m := by
  rw [advance_of_not_removable hr, Memory.put_of_get? (hm.get?_of_find? hf)]

theorem without_put {e e' : Entry} (ha : e.Akin e') : without (m.put e') e' = without m e := by
  rw [without, Memory.put, ha.name, SortedMap.erase_insert]

theorem remove_removable {forced : Bool} (hf : m.find? name = some k) (hl : k.container.status.isLive → forced)
    (hr : Removable k) : m.remove name forced = (.ok (), without m k) := by
  rw [Memory.remove_of_find? hf hl, if_pos (removable_iff.1 hr)]

theorem remove_stuck {forced : Bool} (hf : m.find? name = some k) (hr : ¬ Removable k) :
    m.remove name forced = (.error (refusal k), m) := by
  have hl : k.container.status.isLive → forced := by simp [isLive_of_not_removable hr]
  rw [Memory.remove_of_find? hf hl, if_neg fun hc => hr (removable_iff.2 hc)]

/-- Without a container that nothing shares a name or an identifier with, the name leads nowhere. -/
theorem find?_without (hm : Sound m) (hf : m.find? name = some k)
    (hn : Unambiguous m name) : (without m k).find? name = none := by
  refine Memory.find?_eq_none_iff.2 fun n x hx => not_or.1 fun hmatch => ?_
  have hold : m.containers.get? n = some x := SortedMap.get?_of_get?_erase hx
  obtain rfl : k = x := Option.some.inj (hf.symm.trans (hn n x hold hmatch))
  exact absurd (hm.filed hold).symm (SortedMap.ne_of_get?_erase hx)

theorem Unambiguous.of_undisputed (hu : Memory.Undisputed m name) : Unambiguous m name := by
  intro n x hx hmatch
  obtain rfl : n = name := hmatch.elim id (hu n x hx)
  exact hu.find?_of_get? hx

end Containers

section Runs
variable {τ : Type} {host : (q : Host.Query) → τ → q.Answer × τ} {h : τ} {m : Memory} {name : String} {k : Entry}

theorem ends_remove {forced : Bool} {m' : Memory} (hr : m.remove name forced = (.ok (), m')) :
    Ends (beside host) (call (.remove name forced)) (h, m) (.ok ()) (h, m') := by
  refine ends_call.2 ?_
  dsimp only [Memory.answer]
  rw [hr]
  exact ⟨rfl, rfl⟩

theorem ends_remove_stuck {forced : Bool} (hf : m.find? name = some k) (hr : ¬ Removable k) :
    Ends (beside host) (call (.remove name forced)) (h, m) (.error (.runtime (refusal k))) (h, m) := by
  refine ends_call.2 ?_
  dsimp only [Memory.answer]
  rw [remove_stuck hf hr]
  exact ⟨rfl, rfl⟩

theorem ends_isPresent (hf : m.find? name = none) :
    Ends (beside host) (isPresent name) (h, m) (.ok false) (h, m) :=
  ends_inspect_absent hf (ends_pure.2 ⟨rfl, rfl⟩)

section Clean

theorem ends_clean_absent {forced : Bool} (hf : m.find? name = none) :
    Ends (beside host) (clean name forced) (h, m) (.ok ()) (h, m) :=
  ends_inspect_absent hf (ends_pure.2 ⟨rfl, rfl⟩)

theorem ends_clean_removable (hm : Sound m) (hf : m.find? name = some k) (hr : Removable k) :
    Ends (beside host) (clean name true) (h, m) (.ok ()) (h, without m k) := by
  have hfound := hm.find?_put hf k.continues_advance
  have hremove : (m.put k.advance).remove name true = (.ok (), without m k) := by
    rw [remove_removable hfound (fun _ => rfl) hr.advance, without_put k.continues_advance.toAkin]
  exact ends_inspect_found hf (ends_remove hremove)

theorem ends_clean_stuck (hm : Sound m) (hf : m.find? name = some k) (hr : ¬ Removable k) :
    Ends (beside host) (clean name true) (h, m) (.error (.runtime (refusal k))) (h, m) := by
  refine ends_inspect_found hf ?_
  rw [put_advance_of_not_removable hm hf hr]
  exact ends_remove_stuck hf hr

end Clean

section Destroy

/-- A container as it is when it has been stopped. -/
def stopped (k : Entry) : Entry := if k.container.status.isLive then k.turned .exited else k

theorem continues_stopped (k : Entry) : k.Continues (stopped k) := by
  unfold stopped
  split
  · next hl => exact Entry.continues_turned (Memory.canBecome_exited hl)
  · exact ⟨.refl k, .inl rfl⟩

theorem isLive_stopped (k : Entry) : (stopped k).container.status.isLive = false := by
  unfold stopped
  split
  · rfl
  · next hl => simpa using hl

theorem Removable.stopped (hr : Removable k) : Removable (stopped k) := by
  unfold Local.stopped
  split
  · exact ⟨nofun, nofun⟩
  · exact hr

/-- What is there can be stopped. -/
theorem ends_stop (hm : Sound m) (hf : m.find? name = some k) :
    Ends (beside host) (stop name) (h, m) (.ok ()) (h, m.put (stopped k)) := by
  unfold stop
  rw [ends_attempt]
  dsimp only [Memory.answer]
  by_cases hl : k.container.status.isLive
  · have hstop : stopped k = k.turned .exited := if_pos hl
    rw [Memory.kill_of_find? hf, if_pos hl, hstop]
    exact ends_pure.2 ⟨rfl, rfl⟩
  · have hstop : stopped k = k := if_neg hl
    rw [Memory.kill_of_find? hf, if_neg hl, hstop, Memory.put_of_get? (hm.get?_of_find? hf)]
    exact ends_pure.2 ⟨rfl, rfl⟩

/-- An image that is gone or in use does not keep an environment from being destroyed. -/
theorem ends_dropImage (reference : String) :
    Ends (beside host) (dropImage reference) (h, m) (.ok ())
      (h, (Memory.answer (.removeImage reference) m).2) := by
  unfold dropImage
  rw [ends_attempt]
  dsimp only [Memory.answer]
  rcases Memory.removeImage_cases m reference with ⟨_, hr⟩ | ⟨_, hr | ⟨text, hr⟩⟩ <;> rw [hr]
  · exact ends_pure.2 ⟨rfl, rfl⟩
  · exact ends_pure.2 ⟨rfl, rfl⟩
  · exact ends_pure.2 ⟨rfl, rfl⟩

/-- What is left when the container that a name leads to was destroyed, and its image with it if nothing else uses it. -/
def destroyed (m : Memory) (k : Entry) : Memory :=
  (Memory.answer (.removeImage k.container.image) (without m k)).2

theorem containers_destroyed (m : Memory) (k : Entry) :
    (destroyed m k).containers = m.containers.erase k.container.name := by
  unfold destroyed
  dsimp only [Memory.answer]
  rcases Memory.removeImage_cases (without m k) k.container.image with ⟨_, hr⟩ | ⟨_, hr | ⟨text, hr⟩⟩ <;> rw [hr]

/-- Once a container is destroyed that nothing shares a name or an identifier with, the name leads nowhere. -/
theorem find?_destroyed (hm : Sound m) (hf : m.find? name = some k) (hn : Unambiguous m name) :
    (destroyed m k).find? name = none := by
  rw [Memory.find?_eq_none_iff, containers_destroyed]
  exact Memory.find?_eq_none_iff.1 (find?_without hm hf hn)

theorem ends_destroy_absent (hf : m.find? name = none) :
    Ends (beside host) (destroy name) (h, m) (.ok none) (h, m) :=
  ends_inspect_absent hf (ends_pure.2 ⟨rfl, rfl⟩)

theorem ends_destroy_removable (hm : Sound m) (hf : m.find? name = some k) (hr : Removable k) :
    Ends (beside host) (destroy name) (h, m) (.ok (some name)) (h, destroyed m k) := by
  -- the container as the inspection leaves it, and as it is removed
  have hput := hm.put hf k.continues_advance
  have hfound := hm.find?_put hf k.continues_advance
  have hstopped := hput.find?_put hfound (continues_stopped k.advance)
  have hl : (stopped k.advance).container.status.isLive → false := by simp [isLive_stopped]
  have hremove : ((m.put k.advance).put (stopped k.advance)).remove name false = (.ok (), without m k) := by
    rw [remove_removable hstopped hl hr.advance.stopped, without_put (continues_stopped _).toAkin,
      without_put k.continues_advance.toAkin]
  refine ends_inspect_found hf ?_
  refine ends_bind_ok.2 ⟨(), _, ends_stop hput hfound, ?_⟩
  refine ends_bind_ok.2 ⟨(), _, ends_remove hremove, ?_⟩
  rw [k.continues_advance.image]
  exact ends_bind_ok.2 ⟨(), _, ends_dropImage _, ends_pure.2 ⟨rfl, rfl⟩⟩

theorem ends_destroy_stuck (hm : Sound m) (hf : m.find? name = some k) (hr : ¬ Removable k) :
    Ends (beside host) (destroy name) (h, m) (.error (.runtime (refusal k))) (h, m) := by
  have hstop : stopped k = k := if_neg (by simp [isLive_of_not_removable hr])
  have estop : Ends (beside host) (stop name) (h, m) (.ok ()) (h, m.put (stopped k)) := ends_stop hm hf
  rw [hstop, Memory.put_of_get? (hm.get?_of_find? hf)] at estop
  refine ends_inspect_found hf ?_
  rw [put_advance_of_not_removable hm hf hr]
  refine ends_bind.2 (.inl ⟨(), _, estop, ?_⟩)
  exact ends_bind.2 (.inr ⟨_, ends_remove_stuck hf hr, rfl⟩)

end Destroy
end Runs

section Histories
variable {m : Memory} {op : Memory.Operation} {k : Entry}

/-- No container is being removed. -/
def AllRemovable (m : Memory) : Prop := ∀ n k, m.containers.get? n = some k → Removable k

theorem allRemovable_empty (order : Memory.Order) : AllRemovable { order } := by
  intro n k hk
  cases hk

private theorem AllRemovable.put (hm : AllRemovable m) (hr : Removable k) : AllRemovable (m.put k) :=
  Memory.forall_put hm hr

private theorem Removable.started (hr : Removable k) (delay : Option Nat) : Removable (k.started delay) := by
  unfold Entry.started
  split
  · split
    · exact ⟨nofun, nofun⟩
    · exact hr
  · exact hr

/-- A change that does not lead to its removal leaves a container removable: only a removed one is gone. -/
private theorem Removable.turned {status : Status} (hr : Removable k) (hc : k.container.status.canBecome status)
    (hs : status ≠ .removing) : Removable (k.turned status) := by
  refine ⟨hs, ?_⟩
  rintro rfl
  have hgone : ∀ s : Status, s.canBecome .notCreated → s = .removing := by
    intro s
    cases s <;> decide
  exact hr.1 (hgone _ hc)

private theorem ne_removing_of_turns {c : Call} {s t : Status} (h : Memory.Turns c s t) : t ≠ .removing := by
  cases h <;> nofun

private theorem AllRemovable.call (hs : Sound m) (hm : AllRemovable m) (c : Call) :
    AllRemovable (Memory.answer c m).2 := by
  have found {name : String} {k : Entry} (hf : m.find? name = some k) : Removable k :=
    hm _ k (hs.get?_of_find? hf)
  have ho := Memory.outcome_of_call m c
  generalize (Memory.answer c m).2 = m' at ho
  cases ho with
  | same _ => exact hm
  | looked hf => exact hm.put (found hf).advance
  | @created spec _ =>
    have hnew : Removable (m.newEntry spec) := ⟨nofun, nofun⟩
    exact hm.put hnew
  | started ha _ _ => exact hm.put ((found ha.again).started _)
  | turned _ hf ht =>
    exact hm.put ((found hf).turned ht.canBecome (ne_removing_of_turns ht))
  | removed _ _ _ => exact fun n k hk => hm n k (SortedMap.get?_of_get?_erase hk)
  | dropped _ => exact hm

/-- Only a change of state from the runtime's own side brings a container into its removal. -/
theorem AllRemovable.perform (hs : Sound m) (hm : AllRemovable m) (hop : ∀ name, op ≠ .setStatus name .removing) :
    AllRemovable (op.perform m) := by
  cases op with
  | call c => exact hm.call hs c
  | addImage _ _ _ => exact hm
  | occupy _ => exact hm
  | setStatus name status =>
    rcases Memory.perform_setStatus m name status with h | ⟨k, hf, hc, h⟩ <;> rw [h]
    · exact hm
    · have hne : status ≠ .removing := by
        rintro rfl
        exact hop name rfl
      exact hm.put ((hm _ k (hs.get?_of_find? hf)).turned hc hne)
  | configure _ _ _ => exact hm

theorem AllRemovable.after (hr : Reachable m) (hm : AllRemovable m) {ops : List Memory.Operation}
    (hops : ∀ name, .setStatus name .removing ∉ ops) : AllRemovable (Memory.after ops m) := by
  induction ops generalizing m with
  | nil => exact hm
  | cons op ops ih =>
    have hop : ∀ name, op ≠ .setStatus name .removing := by
      rintro name rfl
      exact hops name List.mem_cons_self
    have hrest : ∀ name, .setStatus name .removing ∉ ops := fun name h => hops name (List.mem_cons_of_mem _ h)
    exact ih (hr.perform op) (hm.perform hr.sound hop) hrest

end Histories

section Force
variable {τ α : Type}

/-- The action succeeds, and nothing is there under the name any more. -/
def Clears (host : (q : Host.Query) → τ → q.Answer × τ) (h : τ) (m : Memory) (name : String) (act : Act α) :
    Prop :=
  ∃ a m', Ends (beside host) act (h, m) (.ok a) (h, m') ∧
    Ends (beside host) (isPresent name) (h, m') (.ok false) (h, m')

/-- The action is refused for the state that the container is in, and nothing changes. -/
def Refuses (host : (q : Host.Query) → τ → q.Answer × τ) (h : τ) (m : Memory) (k : Entry) (act : Act α) : Prop :=
  Ends (beside host) act (h, m) (.error (.runtime (refusal k))) (h, m)

variable {host : (q : Host.Query) → τ → q.Answer × τ} {h : τ} {m : Memory} {name : String}

private theorem clears_of_removable (hm : Sound m) (hn : Unambiguous m name)
    (hr : ∀ k, m.find? name = some k → Removable k) :
    Clears host h m name (clean name true) ∧ Clears host h m name (destroy name) := by
  cases hf : m.find? name with
  | none =>
    have hgone : Ends (beside host) (isPresent name) (h, m) (.ok false) (h, m) := ends_isPresent hf
    exact ⟨⟨(), m, ends_clean_absent hf, hgone⟩, ⟨none, m, ends_destroy_absent hf, hgone⟩⟩
  | some k =>
    have hk := hr k hf
    exact ⟨⟨(), _, ends_clean_removable hm hf hk, ends_isPresent (find?_without hm hf hn)⟩,
      ⟨some name, _, ends_destroy_removable hm hf hk, ends_isPresent (find?_destroyed hm hf hn)⟩⟩

/-- Whatever was done to a runtime, what a name leads to can be taken away by force, unless its removal was begun from
the runtime's own side: then it is refused and stays. -/
theorem forced_removal (host : (q : Host.Query) → τ → q.Answer × τ) (h : τ) (order : Memory.Order)
    (ops : List Memory.Operation) (name : String) (hn : Unambiguous (Memory.after ops { order }) name) :
    ((∀ k, (Memory.after ops { order }).find? name = some k → Removable k) →
      Clears host h (Memory.after ops { order }) name (clean name true) ∧
        Clears host h (Memory.after ops { order }) name (destroy name)) ∧
    (∀ k, (Memory.after ops { order }).find? name = some k → ¬ Removable k →
      Refuses host h (Memory.after ops { order }) k (clean name true) ∧
        Refuses host h (Memory.after ops { order }) k (destroy name)) ∧
    ((∀ other, .setStatus other .removing ∉ ops) →
      ∀ k, (Memory.after ops { order }).find? name = some k → Removable k) := by
  have hempty : Reachable { order } := .empty
  have hm := (hempty.after ops).sound
  refine ⟨clears_of_removable hm hn, ?_, ?_⟩
  · intro k hf hk
    exact ⟨ends_clean_stuck hm hf hk, ends_destroy_stuck hm hf hk⟩
  · intro hops k hf
    exact (allRemovable_empty order).after hempty hops _ k (hm.get?_of_find? hf)

/-- A history after which an environment runs that took its time to start. -/
def slowRun : List Memory.Operation :=
  [.configure ∅ "6.1.0" (some 1), .call (.create { name := "mnist", image := "mnist:dev" }), .call (.start "mnist"),
    .call (.inspect "mnist"), .call (.inspect "mnist")]

/-- A history in which the removal of an environment is begun from the runtime's own side. -/
def begunRemoval : List Memory.Operation :=
  [.call (.create { name := "mnist", image := "mnist:dev" }), .setStatus "mnist" .removing]

private theorem sound_after (ops : List Memory.Operation) : Sound (Memory.after ops {}) :=
  (Reachable.empty.after ops).sound

theorem forced_removal_mnist :
    (Clears stillHost () (Memory.after slowRun {}) "mnist" (clean "mnist" true) ∧
      Clears stillHost () (Memory.after slowRun {}) "mnist" (destroy "mnist")) ∧
    ∃ k, k.container.status = .removing ∧
      Refuses stillHost () (Memory.after begunRemoval {}) k (clean "mnist" true) ∧
        Refuses stillHost () (Memory.after begunRemoval {}) k (destroy "mnist") := by
  have hn (ops : List Memory.Operation) : Unambiguous (Memory.after ops {}) "mnist" :=
    .of_undisputed ((sound_after ops).undisputed (by decide))
  constructor
  · obtain ⟨hclears, _, hremovable⟩ := forced_removal stillHost () .ascending slowRun "mnist" (hn _)
    have hops : ∀ other, .setStatus other .removing ∉ slowRun := by simp [slowRun]
    exact hclears (hremovable hops)
  · obtain ⟨_, hrefuses, _⟩ := forced_removal stillHost () .ascending begunRemoval "mnist" (hn _)
    refine ⟨_, rfl, hrefuses _ rfl ?_⟩
    exact fun hr => hr.1 rfl

/-- Force does not remove an environment whose removal was begun already. -/
theorem begun_removal_refuses : ¬ ∀ (ops : List Memory.Operation) (name : String),
    (∀ n x, (Memory.after ops {}).containers.get? n = some x → x.container.id.text ≠ name) →
      Clears stillHost () (Memory.after ops {}) name (clean name true) ∧
        Clears stillHost () (Memory.after ops {}) name (destroy name) := by
  intro h
  obtain ⟨⟨_, m', he, _⟩, _⟩ := h begunRemoval "mnist" ((sound_after _).id_ne (by decide))
  cases he

end Force

end DevEnv.Local
