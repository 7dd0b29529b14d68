import DevEnv.SortedMap

/-! Looking up after a change. Maps that answer every lookup alike are equal, so a law of states
is shown one key at a time. -/
namespace DevEnv.SortedMap
variable {κ υ : Type} [LT κ]

/-- In a list of entries with distinct keys every entry is found. -/
theorem lookup_of_mem {α β : Type} [BEq α] [LawfulBEq α] {es : List (α × β)} (hn : (es.map (·.1)).Nodup)
    {e : α × β} (he : e ∈ es) : es.lookup e.1 = some e.2 := by
  induction es with
  | nil => cases he
  | cons x es ih =>
    obtain ⟨hx, hn⟩ := List.nodup_cons.1 hn
    rcases List.mem_cons.1 he with rfl | he
    · exact List.lookup_cons_self
    · have hne : e.1 ≠ x.1 := fun h => hx (List.mem_map.2 ⟨e, he, h⟩)
      rw [List.lookup_cons, beq_eq_false_iff_ne.2 hne]
      exact ih hn he

theorem mem_of_lookup {α β : Type} [BEq α] [LawfulBEq α] {es : List (α × β)} {k : α} {v : β}
    (h : es.lookup k = some v) : (k, v) ∈ es := by
  obtain ⟨above, below, rfl, -⟩ := List.lookup_eq_some_iff.1 h
  exact List.mem_append_right _ List.mem_cons_self

theorem lookup_eq_none_of_notMem {α β : Type} [BEq α] [LawfulBEq α] {es : List (α × β)} {k : α}
    (h : k ∉ es.map (·.1)) : es.lookup k = none := by
  refine List.lookup_eq_none_iff.2 fun e he => bne_iff_ne.2 fun hk => h ?_
  exact hk ▸ List.mem_map_of_mem he

section Contains
variable [DecidableEq κ]

theorem contains_iff {m : SortedMap κ υ} {k : κ} :
    m.contains k ↔ ∃ v, m.get? k = some v :=
  Option.isSome_iff_exists

theorem contains_eq_false_iff {m : SortedMap κ υ} {k : κ} : m.contains k = false ↔ m.get? k = none := by
  unfold contains
  cases m.get? k <;> simp

end Contains

variable [LE κ] [Std.LawfulOrderLT κ]

private theorem key_unique {es : List (κ × υ)} (h : es.Pairwise (fun a b => a.1 < b.1)) {k : κ} {v w : υ}
    (hv : (k, v) ∈ es) (hw : (k, w) ∈ es) : v = w := by
  induction es with
  | nil => cases hv
  | cons e rest ih =>
    have ⟨he, hr⟩ := List.pairwise_cons.1 h
    rcases List.mem_cons.1 hv with hv | hv <;> rcases List.mem_cons.1 hw with hw | hw
    · exact congrArg Prod.snd (hv.trans hw.symm)
    · exact absurd (hv ▸ he _ hw) Std.lt_irrefl
    · exact absurd (hw ▸ he _ hv) Std.lt_irrefl
    · exact ih hr hv hw

private theorem keys_nodup (m : SortedMap κ υ) : (m.entries.map (·.1)).Nodup := by
  have hascending : (m.entries.map (·.1)).Pairwise (· < ·) := List.pairwise_map.2 m.ascending
  refine hascending.imp ?_
  rintro a b hab rfl
  exact Std.lt_irrefl hab

section Lookup
variable [DecidableEq κ]

theorem get?_eq_some_iff {m : SortedMap κ υ} {k : κ} {v : υ} : m.get? k = some v ↔ (k, v) ∈ m.entries := by
  unfold get?
  constructor
  · intro h
    obtain ⟨e, he, rfl⟩ := Option.map_eq_some_iff.1 h
    obtain rfl : e.1 = k := by simpa using List.find?_some he
    exact List.mem_of_find?_eq_some he
  · intro h
    cases hf : m.entries.find? (fun e => e.1 = k) with
    | none => simpa using List.find?_eq_none.1 hf _ h
    | some e =>
      obtain rfl : e.1 = k := by simpa using List.find?_some hf
      exact congrArg some (key_unique m.ascending (List.mem_of_find?_eq_some hf) h)

private theorem lookup_entries (m : SortedMap κ υ) (k : κ) : m.entries.reverse.lookup k = m.get? k := by
  cases h : m.entries.reverse.lookup k with
  | none =>
    refine (Option.eq_none_iff_forall_ne_some.2 fun v hv => ?_).symm
    have hne := List.lookup_eq_none_iff.1 h (k, v) (List.mem_reverse.2 (get?_eq_some_iff.1 hv))
    exact bne_iff_ne.1 hne rfl
  | some v => exact (get?_eq_some_iff.2 (List.mem_reverse.1 (mem_of_lookup h))).symm

theorem mem_values {m : SortedMap κ υ} {v : υ} : v ∈ m.values ↔ ∃ k, m.get? k = some v := by
  unfold values
  constructor
  · intro h
    obtain ⟨e, he, rfl⟩ := List.mem_map.1 h
    exact ⟨e.1, get?_eq_some_iff.2 he⟩
  · rintro ⟨k, hk⟩
    exact List.mem_map.2 ⟨(k, v), get?_eq_some_iff.1 hk, rfl⟩

theorem mem_keys {m : SortedMap κ υ} {k : κ} : k ∈ m.keys ↔ ∃ v, m.get? k = some v := by
  simp only [keys, List.mem_map, get?_eq_some_iff, Prod.exists, exists_and_right, exists_eq_right]

theorem get?_filter {p : κ → υ → Bool} {m : SortedMap κ υ} {k : κ} :
    (m.filter p).get? k = (m.get? k).filter (p k) := by
  ext v
  rw [get?_eq_some_iff, Option.filter_eq_some_iff, get?_eq_some_iff]
  simp [filter]

theorem get?_erase (m : SortedMap κ υ) (k k' : κ) :
    (m.erase k).get? k' = if k' = k then none else m.get? k' := by
  unfold erase
  rw [get?_filter]
  by_cases hk : k' = k
  · simp [hk]
  · cases m.get? k' <;> simp [hk]

@[simp] theorem get?_erase_self (m : SortedMap κ υ) (k : κ) : (m.erase k).get? k = none := by
  simp [get?_erase]

theorem get?_erase_ne {m : SortedMap κ υ} {k k' : κ} (h : k' ≠ k) : (m.erase k).get? k' = m.get? k' := by
  simp [get?_erase, h]

theorem ne_of_get?_erase {m : SortedMap κ υ} {k k' : κ} {v : υ} (h : (m.erase k).get? k' = some v) : k' ≠ k := by
  rintro rfl
  rw [get?_erase_self] at h
  cases h

/-- What is found without a key is found with it. -/
theorem get?_of_get?_erase {m : SortedMap κ υ} {k k' : κ} {v : υ} (h : (m.erase k).get? k' = some v) :
    m.get? k' = some v := by
  rw [get?_erase] at h
  split at h
  · cases h
  · exact h

end Lookup

variable [Std.IsLinearOrder κ]

/-- The first entry that passes a test is the one with the smallest key of those that pass. -/
theorem find?_entries_iff {m : SortedMap κ υ} {p : κ × υ → Bool} {e : κ × υ} :
    m.entries.find? p = some e ↔ e ∈ m.entries ∧ p e = true ∧ ∀ e' ∈ m.entries, e'.1 < e.1 → p e' = false := by
  rw [List.find?_eq_some_iff_append]
  constructor
  · rintro ⟨hp, above, below, hes, hnone⟩
    have hsorted := m.ascending
    rw [hes] at hsorted ⊢
    refine ⟨List.mem_append_right _ List.mem_cons_self, hp, fun e' he' hlt => ?_⟩
    rcases List.mem_append.1 he' with habove | hbelow
    · exact (Bool.not_eq_true' _).mp (hnone e' habove)
    rcases List.mem_cons.1 hbelow with rfl | hbelow
    · exact absurd hlt Std.lt_irrefl
    · have hgt : e.1 < e'.1 := (List.pairwise_cons.1 (List.pairwise_append.1 hsorted).2.1).1 e' hbelow
      exact absurd (Std.lt_trans hlt hgt) Std.lt_irrefl
  · rintro ⟨he, hp, hnone⟩
    obtain ⟨above, below, hes⟩ := List.append_of_mem he
    refine ⟨hp, above, below, hes, fun e' he' => ?_⟩
    have hsorted := m.ascending
    rw [hes] at hsorted
    have hlt : e'.1 < e.1 := (List.pairwise_append.1 hsorted).2.2 e' he' e List.mem_cons_self
    rw [hnone e' (hes ▸ List.mem_append_left _ he') hlt, Bool.not_false]

/-- Maps with the same keys have them in the same order. -/
theorem keys_eq_of_mem_iff {m n : SortedMap κ υ} (h : ∀ k, k ∈ m.keys ↔ k ∈ n.keys) : m.keys = n.keys := by
  have hascending (m : SortedMap κ υ) : m.keys.Pairwise (· < ·) := List.pairwise_map.2 m.ascending
  refine List.Perm.eq_of_pairwise ?_ (hascending m) (hascending n)
    ((List.perm_ext_iff_of_nodup m.keys_nodup n.keys_nodup).2 h)
  intro a b _ _ hab hba
  exact absurd (Std.lt_trans hab hba) Std.lt_irrefl

section Extension
variable [DecidableEq κ]

/-- Every key looked up alike leaves no room for a difference. -/
theorem ext_get? {m n : SortedMap κ υ} (h : ∀ k, m.get? k = n.get? k) : m = n := by
  have hmem (e : κ × υ) : e ∈ m.entries ↔ e ∈ n.entries := by
    rw [← get?_eq_some_iff (k := e.1) (v := e.2), ← get?_eq_some_iff (k := e.1) (v := e.2), h]
  have nodup (m : SortedMap κ υ) : m.entries.Nodup := by
    refine m.ascending.imp ?_
    rintro a b hab rfl
    exact Std.lt_irrefl hab
  apply ext_entries
  refine List.Perm.eq_of_pairwise ?_ m.ascending n.ascending
    ((List.perm_ext_iff_of_nodup (nodup m) (nodup n)).2 hmem)
  intro a b _ _ hab hba
  exact absurd (Std.lt_trans hab hba) Std.lt_irrefl

theorem erase_of_get? {m : SortedMap κ υ} {k : κ} (h : m.get? k = none) : m.erase k = m := by
  apply ext_get?
  intro k'
  by_cases hk : k' = k
  · rw [hk, get?_erase_self, h]
  · rw [get?_erase_ne hk]

end Extension

section Insertion
variable [DecidableLT κ]

private theorem mem_insertEntry {k : κ} {v : υ} {es : List (κ × υ)} (h : es.Pairwise (fun a b => a.1 < b.1))
    {e : κ × υ} : e ∈ insertEntry k v es ↔ e = (k, v) ∨ e ∈ es ∧ e.1 ≠ k := by
  induction es with
  | nil => simp [insertEntry]
  | cons x rest ih =>
    obtain ⟨hx, hr⟩ := List.pairwise_cons.1 h
    have ne_of_lt {a b : κ} (hab : a < b) : b ≠ a := fun hba => Std.lt_irrefl (hba ▸ hab)
    unfold insertEntry
    split
    · next hk =>
      -- the new entry stands before all others, so none of them has its key
      have far : ∀ y ∈ x :: rest, y.1 ≠ k := by
        intro y hy
        rcases List.mem_cons.1 hy with rfl | hy
        · exact ne_of_lt hk
        · exact ne_of_lt (Std.lt_trans hk (hx y hy))
      rw [List.mem_cons]
      exact or_congr_right ⟨fun he => ⟨he, far e he⟩, And.left⟩
    · split
      · next hk =>
        have hne : x.1 ≠ k := fun hx => Std.lt_irrefl (hx ▸ hk)
        rw [List.mem_cons, ih hr, List.mem_cons]
        constructor
        · rintro (rfl | rfl | ⟨he, hn⟩)
          · exact .inr ⟨.inl rfl, hne⟩
          · exact .inl rfl
          · exact .inr ⟨.inr he, hn⟩
        · rintro (rfl | ⟨rfl | he, hn⟩)
          · exact .inr (.inl rfl)
          · exact .inl rfl
          · exact .inr (.inr ⟨he, hn⟩)
      · next hk hk' =>
        have hxk : x.1 = k := Std.le_antisymm (Std.not_lt.1 hk) (Std.not_lt.1 hk')
        rw [List.mem_cons, List.mem_cons]
        constructor
        · rintro (rfl | he)
          · exact .inl rfl
          · exact .inr ⟨.inr he, ne_of_lt (hxk ▸ hx e he)⟩
        · rintro (rfl | ⟨rfl | he, hn⟩)
          · exact .inl rfl
          · exact absurd hxk hn
          · exact .inr he

variable [DecidableEq κ]

theorem get?_insert (m : SortedMap κ υ) (k k' : κ) (v : υ) :
    (m.insert k v).get? k' = if k' = k then some v else m.get? k' := by
  ext w
  rw [get?_eq_some_iff, insert, mem_insertEntry m.ascending]
  by_cases hk : k' = k
  · subst hk; simp [eq_comm]
  · simp [hk, get?_eq_some_iff]

@[simp] theorem get?_insert_self (m : SortedMap κ υ) (k : κ) (v : υ) : (m.insert k v).get? k = some v := by
  simp [get?_insert]

theorem get?_insert_ne {m : SortedMap κ υ} {k k' : κ} {v : υ} (h : k' ≠ k) :
    (m.insert k v).get? k' = m.get? k' := by
  simp [get?_insert, h]

/-- What is found after an insertion is what was inserted, or it was there before. -/
theorem get?_insert_cases {m : SortedMap κ υ} {k k' : κ} {v w : υ} (h : (m.insert k v).get? k' = some w) :
    k' = k ∧ w = v ∨ m.get? k' = some w := by
  rw [get?_insert] at h
  split at h
  · next hk => exact .inl ⟨hk, (Option.some.inj h).symm⟩
  · exact .inr h

/-- The later of two values filed under one key stays. -/
@[simp] theorem insert_insert (m : SortedMap κ υ) (k : κ) (v w : υ) :
    (m.insert k v).insert k w = m.insert k w := by
  apply ext_get?
  intro k'
  by_cases h : k' = k <;> simp [get?_insert, h]

theorem insert_of_get? {m : SortedMap κ υ} {k : κ} {v : υ} (h : m.get? k = some v) : m.insert k v = m := by
  apply ext_get?
  intro k'
  by_cases hk : k' = k
  · rw [hk, get?_insert_self, h]
  · rw [get?_insert_ne hk]

/-- A value that takes the place of another one leaves the keys as they were. -/
theorem keys_insert_of_get? {m : SortedMap κ υ} {k : κ} {v w : υ} (h : m.get? k = some v) :
    (m.insert k w).keys = m.keys := by
  refine keys_eq_of_mem_iff fun k' => ?_
  rw [mem_keys, mem_keys, get?_insert]
  by_cases hk : k' = k
  · simp [hk, h]
  · rw [if_neg hk]

@[simp] theorem erase_insert (m : SortedMap κ υ) (k : κ) (v : υ) : (m.insert k v).erase k = m.erase k := by
  apply ext_get?
  intro k'
  by_cases h : k' = k <;> simp [get?_erase, get?_insert, h]

@[simp] theorem insert_erase (m : SortedMap κ υ) (k : κ) (v : υ) : (m.erase k).insert k v = m.insert k v := by
  apply ext_get?
  intro k'
  by_cases h : k' = k <;> simp [get?_erase, get?_insert, h]

/-- Of the entries filed under one key the last counts; without one the map keeps what it had. -/
theorem get?_insertAll (m : SortedMap κ υ) (es : List (κ × υ)) (k : κ) :
    (m.insertAll es).get? k = (es.reverse.lookup k).or (m.get? k) := by
  induction es generalizing m with
  | nil => rfl
  | cons e es ih =>
    obtain ⟨k', v⟩ := e
    rw [insertAll, List.foldl_cons, ← insertAll, ih, get?_insert, List.reverse_cons, List.lookup_append,
      Option.or_assoc]
    congr 1
    rw [List.lookup_cons, List.lookup_nil]
    by_cases hk : k = k'
    · simp [hk]
    · rw [if_neg hk, beq_eq_false_iff_ne.2 hk]
      rfl

theorem get?_ofList (es : List (κ × υ)) (k : κ) :
    (ofList es : SortedMap κ υ).get? k = es.reverse.lookup k := by
  rw [ofList, get?_insertAll]
  exact Option.or_none

theorem mem_of_mem_ofList {es : List (κ × υ)} {e : κ × υ} (h : e ∈ (ofList es).entries) : e ∈ es := by
  have hlookup : es.reverse.lookup e.1 = some e.2 := (get?_ofList es e.1).symm.trans (get?_eq_some_iff.2 h)
  exact List.mem_reverse.1 (mem_of_lookup hlookup)

/-- Entries with distinct keys are all kept, in the order of their keys. -/
theorem entries_ofList_perm {es : List (κ × υ)} (hn : (es.map (·.1)).Nodup) :
    (ofList es : SortedMap κ υ).entries.Perm es := by
  have hkeys : (es.reverse.map (·.1)).Nodup := ((List.reverse_perm es).map _).nodup_iff.2 hn
  have nodup {l : List (κ × υ)} (hl : (l.map (·.1)).Nodup) : l.Nodup :=
    List.Pairwise.of_map _ (fun _ _ hne hab => hne (congrArg _ hab)) hl
  refine (List.perm_ext_iff_of_nodup (nodup (keys_nodup _)) (nodup hn)).2 fun e => ⟨mem_of_mem_ofList, fun he => ?_⟩
  rw [← get?_eq_some_iff, get?_ofList]
  exact lookup_of_mem hkeys (List.mem_reverse.2 he)

/-- A map is made of its entries, in whatever order. -/
theorem ofList_of_perm {m : SortedMap κ υ} {es : List (κ × υ)} (h : es.Perm m.entries) : ofList es = m := by
  apply ext_get?
  intro k
  ext v
  have hkeys : (es.reverse.map (·.1)).Nodup := (((List.reverse_perm es).trans h).map _).nodup_iff.2 m.keys_nodup
  rw [get?_ofList, get?_eq_some_iff, ← h.mem_iff, ← List.mem_reverse]
  exact ⟨mem_of_lookup, fun hmem => lookup_of_mem hkeys hmem⟩

theorem ofList_entries (m : SortedMap κ υ) : ofList m.entries = m := ofList_of_perm (.refl _)

/-- The upper map answers where it has the key, the lower one elsewhere. -/
theorem get?_overlay (m top : SortedMap κ υ) (k : κ) :
    (m.overlay top).get? k = (top.get? k).or (m.get? k) := by
  rw [overlay, get?_insertAll, lookup_entries]

end Insertion

end DevEnv.SortedMap
