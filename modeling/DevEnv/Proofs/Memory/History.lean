import DevEnv.Proofs.Memory.Reachable

/-! Histories of a runtime in memory: what is done to it, one operation after the other, and what it gives out.
Every operation keeps to the states that may follow each other, and no identifier is given out twice. -/
namespace DevEnv.Runtime.Memory

/-- What can be done to a runtime: a call, or something beside the calls. -/
inductive Operation where
  | call (c : Call)
  | addImage (reference : String) (labels : Labels) (created : Timestamp)
  | occupy (port : UInt16)
  | setStatus (name : String) (status : Status)
  | configure (runtimes : SortedMap String String) (kernel : String) (startDelay : Option Nat)

namespace Operation

/-- What the operation leaves of a runtime, also when it is refused. -/
def perform : Operation → Memory → Memory
  | call c, m => (answer c m).2
  | addImage reference labels created, m => m.addImage reference labels created
  | occupy port, m => m.occupy port
  | setStatus name status, m => (m.setStatus name status).2
  | configure runtimes kernel startDelay, m => { m with runtimes, kernel, startDelay }

/-- The identifiers that the operation gives out: that of a container it created, or of an image it registered. -/
def issues : Operation → Memory → List Identifier
  | call (.create spec), m => (m.create spec).1.toOption.toList
  | addImage reference labels created, m =>
    ((m.addImage reference labels created).images.get? reference).toList.map (·.id)
  | _, _ => []

end Operation

/-- What a history of operations leaves of a runtime. -/
def after (ops : List Operation) (m : Memory) : Memory := ops.foldl (fun m op => op.perform m) m

/-- All identifiers that are given out in a history of operations, in order. -/
def issued : List Operation → Memory → List Identifier
  | [], _ => []
  | op :: ops, m => op.issues m ++ issued ops (op.perform m)

section Effect
variable {m : Memory} {op : Operation} {cs : SortedMap String Entry}

/-- What an operation makes of the containers. -/
inductive Effect (m : Memory) : Operation → SortedMap String Entry → Prop where
  | keep (op : Operation) : Effect m op m.containers
  | touch (op : Operation) {e e' : Entry} (filed : m.containers.get? e.container.name = some e)
      (continues : e.Continues e') : Effect m op (m.containers.insert e.container.name e')
  | create {spec : Container.Spec} (absent : m.containers.get? spec.name = none) :
      Effect m (.call (.create spec)) (m.containers.insert spec.name (m.newEntry spec))
  | remove {name : String} {forced : Bool} {e : Entry} (found : m.find? name = some e)
      (removable : e.container.status.canBecome .removing) :
      Effect m (.call (.remove name forced)) (m.containers.erase e.container.name)

theorem perform_setStatus (m : Memory) (name : String) (status : Status) :
    (Operation.setStatus name status).perform m = m ∨ ∃ e, m.find? name = some e ∧
      e.container.status.canBecome status ∧ (Operation.setStatus name status).perform m = m.put (e.turned status) := by
  rw [Operation.perform]
  rcases setStatus_cases m name status with ⟨e, hf, hc, h⟩ | ⟨_, h⟩ <;> rw [h]
  · exact .inr ⟨e, hf, hc, rfl⟩
  · exact .inl rfl

theorem effect_of_operation (hm : Sound m) (op : Operation) : Effect m op (op.perform m).containers := by
  have touch {op : Operation} {name : String} {e e' : Entry} (hf : m.find? name = some e) (hc : e.Continues e') :
      Effect m op (m.put e').containers := by
    rw [put, hc.name]
    exact .touch op (hm.get?_of_find? hf) hc
  cases op with
  | call c =>
    have ho := outcome_of_call m c
    change Effect m (.call c) (answer c m).2.containers
    generalize (answer c m).2 = m' at ho
    cases ho with
    | same c => exact .keep _
    | looked hf => exact touch hf (Entry.continues_advance _)
    | created ha => exact .create ha
    | started ha _ _ => exact touch ha.again (Entry.continues_started _ _)
    | turned _ hf ht => exact touch hf (Entry.continues_turned ht.canBecome)
    | removed hf _ hr => exact .remove hf hr
    | dropped _ => exact .keep _
  | addImage reference labels created => exact .keep _
  | occupy port => exact .keep _
  | setStatus name status =>
    rcases perform_setStatus m name status with h | ⟨e, hf, hs, h⟩ <;> rw [h]
    · exact .keep _
    · exact touch hf (Entry.continues_turned hs)
  | configure runtimes kernel startDelay => exact .keep _

/-- A container there is afterwards was there before, or it was just created. -/
theorem Effect.before (h : Effect m op cs) {n : String} {e' : Entry} (hk : cs.get? n = some e') :
    (∃ e, m.containers.get? n = some e ∧ e.Continues e') ∨
      ∃ spec, op = .call (.create spec) ∧ m.containers.get? spec.name = none ∧ e' = m.newEntry spec := by
  have still {e : Entry} (hk : m.containers.get? n = some e) : ∃ x, m.containers.get? n = some x ∧ x.Continues e :=
    ⟨e, hk, .refl e, .inl rfl⟩
  cases h with
  | keep _ => exact .inl (still hk)
  | touch _ hx hc =>
    rcases SortedMap.get?_insert_cases hk with ⟨rfl, rfl⟩ | hold
    · exact .inl ⟨_, hx, hc⟩
    · exact .inl (still hold)
  | create ha =>
    rcases SortedMap.get?_insert_cases hk with ⟨_, rfl⟩ | hold
    · exact .inr ⟨_, rfl, ha, rfl⟩
    · exact .inl (still hold)
  | remove _ _ => exact .inl (still (SortedMap.get?_of_get?_erase hk))

/-- A container there was before is there afterwards, or it was just removed. -/
theorem Effect.later (hm : Sound m) (h : Effect m op cs) {n : String} {e : Entry}
    (hk : m.containers.get? n = some e) :
    (∃ e', cs.get? n = some e' ∧ e.Continues e') ∨ e.container.status.canBecome .removing ∧
      ∃ name forced, op = .call (.remove name forced) ∧ m.find? name = some e := by
  have still (hk' : cs.get? n = some e) : ∃ x, cs.get? n = some x ∧ e.Continues x :=
    ⟨e, hk', .refl e, .inl rfl⟩
  cases h with
  | keep _ => exact .inl (still hk)
  | @touch _ x x' hx hc =>
    by_cases hn : n = x.container.name
    · obtain rfl : e = x := Option.some.inj (hk.symm.trans (hn ▸ hx))
      exact .inl ⟨x', by rw [hn, SortedMap.get?_insert_self], hc⟩
    · exact .inl (still (by rw [SortedMap.get?_insert_ne hn, hk]))
  | @create spec ha =>
    have hn : n ≠ spec.name := by
      rintro rfl
      rw [ha] at hk
      cases hk
    exact .inl (still (by rw [SortedMap.get?_insert_ne hn, hk]))
  | @remove name forced x hf hr =>
    by_cases hn : n = x.container.name
    · obtain rfl : e = x := Option.some.inj (hk.symm.trans (hn ▸ hm.get?_of_find? hf))
      exact .inr ⟨hr, name, forced, rfl, hf⟩
    · exact .inl (still (by rw [SortedMap.get?_erase_ne hn, hk]))

end Effect

section Identifiers
variable {m : Memory} {op : Operation} {id : Identifier}

/-- The identifier was made of the number, for a container or for an image. -/
def Numbered (i : Nat) (id : Identifier) : Prop := id = ⟨hexId i⟩ ∨ id = ⟨"sha256:" ++ hexId i⟩

private theorem digit_of_mem {n : Nat} {c : Char} (h : c ∈ Nat.toDigits 16 n) :
    ∃ d < 16, c = Nat.digitChar d := by
  induction n using Nat.strongRecOn with
  | ind n ih =>
    by_cases hn : n < 16
    · rw [Nat.toDigits_of_lt_base hn, List.mem_singleton] at h
      exact ⟨n, hn, h⟩
    · rw [Nat.toDigits_of_base_le (by decide) (by omega), List.mem_append, List.mem_singleton] at h
      rcases h with h | h
      · exact ih (n / 16) (by omega) h
      · exact ⟨n % 16, Nat.mod_lt _ (by decide), h⟩

/-- Numbers are written in digits. -/
theorem digit_of_mem_hexId {n : Nat} {c : Char} (h : c ∈ (hexId n).toList) : ∃ d < 16, c = Nat.digitChar d := by
  rw [hexId, String.toList_ofList, List.mem_append] at h
  rcases h with h | h
  · exact ⟨0, by decide, List.eq_of_mem_replicate h⟩
  · exact digit_of_mem h

/-- The identifier of a container is never that of an image. -/
private theorem hexId_ne_hashed (i j : Nat) : hexId i ≠ "sha256:" ++ hexId j := by
  intro h
  have hs : 's' ∈ (hexId i).toList := by
    rw [h, String.toList_append]
    exact List.mem_append_left _ (by decide)
  obtain ⟨d, hd, hc⟩ := digit_of_mem_hexId hs
  exact absurd hc.symm ((by decide : ∀ d < 16, Nat.digitChar d ≠ 's') d hd)

theorem Numbered.unique {i j : Nat} (hi : Numbered i id) (hj : Numbered j id) : i = j := by
  rcases hi with rfl | rfl <;> rcases hj with h | h
  · exact hexId_inj.1 (Identifier.mk.inj h)
  · exact absurd (Identifier.mk.inj h) (hexId_ne_hashed i j)
  · exact absurd (Identifier.mk.inj h).symm (hexId_ne_hashed j i)
  · exact hashed_inj.1 (Identifier.mk.inj h)

/-- An operation gives out no identifier, or one that is made of the next number. -/
theorem issues_cases (m : Memory) (op : Operation) :
    op.issues m = [] ∧ (op.perform m).nextId = m.nextId ∨
      ∃ id, op.issues m = [id] ∧ Numbered m.nextId id ∧ (op.perform m).nextId = m.nextId + 1 := by
  cases op with
  | call c =>
    have ho := outcome_of_call m c
    change (Operation.call c).issues m = [] ∧ (answer c m).2.nextId = m.nextId ∨ ∃ id, (Operation.call c).issues m =
      [id] ∧ Numbered m.nextId id ∧ (answer c m).2.nextId = m.nextId + 1
    cases c with
    | create spec =>
      cases hk : m.containers.get? spec.name with
      | none =>
        refine .inr ⟨⟨hexId m.nextId⟩, ?_, .inl rfl, ?_⟩
        · simp [Operation.issues, create_of_get?_eq_none hk, Except.toOption]
        · simp [answer, create_of_get?_eq_none hk]
      | some e =>
        obtain ⟨text, h⟩ := create_of_get? hk
        simp [Operation.issues, answer, h, Except.toOption]
    | _ =>
      refine .inl ⟨rfl, ?_⟩
      generalize (answer _ m).2 = m' at ho
      cases ho <;> rfl
  | addImage reference labels created =>
    refine .inr ⟨⟨"sha256:" ++ hexId m.nextId⟩, ?_, .inr rfl, rfl⟩
    simp [Operation.issues, addImage]
  | occupy port => exact .inl ⟨rfl, rfl⟩
  | setStatus name status =>
    rcases perform_setStatus m name status with h | ⟨e, _, _, h⟩ <;> rw [h]
    · exact .inl ⟨rfl, rfl⟩
    · exact .inl ⟨rfl, rfl⟩
  | configure runtimes kernel startDelay => exact .inl ⟨rfl, rfl⟩

theorem nextId_perform (m : Memory) (op : Operation) :
    (op.perform m).nextId = m.nextId + (op.issues m).length := by
  rcases issues_cases m op with ⟨hn, hid⟩ | ⟨x, hx, _, hid⟩
  · rw [hn, hid, List.length_nil, Nat.add_zero]
  · rw [hx, hid, List.length_singleton]

theorem nextId_le_perform (m : Memory) (op : Operation) : m.nextId ≤ (op.perform m).nextId := by
  rw [nextId_perform]
  exact Nat.le_add_right _ _

end Identifiers

section Run
variable {m : Memory}

theorem Reachable.perform (hm : Reachable m) (op : Operation) : Reachable (op.perform m) := by
  cases op with
  | call c => exact hm.call c
  | addImage reference labels created => exact .step hm (.addImage ..)
  | occupy port => exact .step hm (.occupy port)
  | setStatus name status => exact .step hm (.setStatus name status)
  | configure runtimes kernel startDelay => exact .step hm (.configure ..)

theorem Reachable.after (hm : Reachable m) (ops : List Operation) : Reachable (after ops m) := by
  induction ops generalizing m with
  | nil => exact hm
  | cons op ops ih => exact ih (hm.perform op)

/-- A container there is after a history was there before, or it goes by a number given out in it. -/
theorem origin_of_after (hm : Reachable m) {ops : List Operation} {n : String} {e' : Entry}
    (h : (Memory.after ops m).containers.get? n = some e') :
    (∃ e, m.containers.get? n = some e ∧ e.Akin e') ∨ ∃ i, m.nextId ≤ i ∧ e'.container.id = ⟨hexId i⟩ := by
  induction ops generalizing m with
  | nil => exact .inl ⟨e', h, .refl e'⟩
  | cons op ops ih =>
    rcases ih (hm.perform op) h with ⟨x, hx, hk⟩ | ⟨i, hi, hid⟩
    · rcases (effect_of_operation hm.sound op).before hx with ⟨e, he, hc⟩ | ⟨spec, _, _, rfl⟩
      · exact .inl ⟨e, he, hc.toAkin.trans hk⟩
      · exact .inr ⟨m.nextId, Nat.le_refl _, hk.id⟩
    · exact .inr ⟨i, Nat.le_trans (nextId_le_perform m op) hi, hid⟩

/-- As long as a container is there, nothing but its state, its address and its countdown changes. -/
theorem akin_of_after (hm : Reachable m) {ops : List Operation} {n n' : String} {e e' : Entry}
    (he : m.containers.get? n = some e) (he' : (Memory.after ops m).containers.get? n' = some e')
    (hid : e'.container.id = e.container.id) : e.Akin e' := by
  rcases origin_of_after hm he' with ⟨x, hx, hk⟩ | ⟨i, hi, hnew⟩
  · obtain rfl : n = n' := hm.sound.distinct he hx (hid.symm.trans hk.id)
    obtain rfl : e = x := Option.some.inj (he.symm.trans hx)
    exact hk
  · obtain ⟨j, hj, hold⟩ := hm.sound.issued he
    have hij : i = j := hexId_inj.1 (Identifier.mk.inj (hnew.symm.trans (hid.trans hold)))
    omega

end Run

end DevEnv.Runtime.Memory
