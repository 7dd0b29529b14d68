import DevEnv.Status
import DevEnv.Proofs.Json.Reading
import DevEnv.Proofs.SortedMap

/-! Typed values read back from the trees that are written for them. A record gets a value in the slot
of each field that was written, and none in the slots of the others. -/
namespace DevEnv.Json

/-- A way of writing values as trees, each of which is legible and read back as the value. -/
structure Faithful {α : Type} (write : α → Json) (value? : Json → Option α) : Prop where
  legible : ∀ a, Legible (write a)
  read : ∀ a, value? (write a) = some a

variable {α : Type} {write : α → Json} {value? : Json → Option α}

theorem faithful_text : Faithful ofString asString? where
  legible s := .string (body_escape s.toList)
  read s := by rw [ofString, asString?, unescape_escape, Option.map_some, String.ofList_toList]

theorem ofString_ne_null (s : String) : ofString s ≠ .null := nofun

theorem asInt?_ofInt {low high i : Int} (hl : low ≤ i) (hh : i ≤ high) : asInt? low high (ofInt i) = some i := by
  have hint : (Number.ofInt i).toInt? = some i := by
    by_cases hi : i < 0
    · rw [Number.ofInt, decide_eq_true hi, Number.toInt?]
      simp only [Int.natAbs_eq_zero, Int.ne_of_lt hi, if_false]
      congr 1
      omega
    · rw [Number.ofInt, decide_eq_false hi, Number.toInt?]
      congr 1
      omega
  rw [ofInt, asInt?, hint]
  simp [Option.filter, hl, hh]

theorem asNat?_ofNat {high n : Nat} (h : n ≤ high) : asNat? high (ofNat n) = some n := by
  rw [asNat?, ofNat, asInt?_ofInt (by omega) (by omega)]
  rfl

theorem faithful_port : Faithful (fun p : UInt16 => ofNat p.toNat) asUInt16? where
  legible p := .number p.toNat
  read p := by
    have hp : p.toNat ≤ UInt16.size - 1 := Nat.le_pred_of_lt p.toNat_lt
    rw [asUInt16?, asNat?_ofNat hp]
    simp

theorem faithful_size : Faithful (fun n : UInt64 => ofNat n.toNat) asUInt64? where
  legible n := .number n.toNat
  read n := by
    have hn : n.toNat ≤ UInt64.size - 1 := Nat.le_pred_of_lt n.toNat_lt
    rw [asUInt64?, asNat?_ofNat hn]
    simp

theorem faithful_flag : Faithful bool asBool? := ⟨.bool, fun _ => rfl⟩

/-- A choice is read back from its word if it is found by its name. -/
theorem faithful_word {name : α → String} {named? : String → Option α} (h : ∀ a, named? (name a) = some a) :
    Faithful (fun a => ofString (name a)) (fun j => j.asWord?.bind named?) where
  legible a := faithful_text.legible (name a)
  read a := by
    have hword : asWord? (ofString (name a)) = some (name a) := faithful_text.read (name a)
    rw [hword]
    exact h a

theorem faithful_count : Faithful (fun n : Int64 => ofInt n.toInt) asInt64? where
  legible n := .number n.toInt
  read n := by
    rw [asInt64?, asInt?_ofInt n.minValue_le_toInt n.toInt_le, Option.map_some, Int64.ofInt_toInt]

theorem Faithful.list (h : Faithful write value?) : Faithful (ofList write) (asList? value?) where
  legible as := by
    refine .array fun j hj => ?_
    obtain ⟨a, _, rfl⟩ := List.mem_map.1 hj
    exact h.legible a
  read as := by
    have hread : value? ∘ write = pure := funext h.read
    rw [ofList, asList?, List.mapM_map, hread, List.mapM_pure, List.map_id']
    rfl

/-- Nothing is told from a value as long as no value is written as null. -/
theorem Faithful.option (h : Faithful write value?) (hn : ∀ a, write a ≠ .null) :
    Faithful (ofOption write) (asOption? value?) where
  legible
    | none => .null
    | some a => h.legible a
  read
    | none => rfl
    | some a => by
      rw [ofOption, asOption?, h.read a]
      · rfl
      · exact hn a

section Fields
variable {β : Type}

/-! The fields of a record are read one after the other, the first one first. -/

theorem Faithful.required_bind (h : Faithful write value?) (a : α) (k : α → Option β) :
    ((Slot.given (write a)).required value? >>= k) = k a :=
  congrArg (· >>= k) (h.read a)

theorem Faithful.defaulted_bind (h : Faithful write value?) (fallback a : α) (k : α → Option β) :
    ((Slot.given (write a)).defaulted fallback value? >>= k) = k a :=
  congrArg (· >>= k) (h.read a)

theorem Faithful.optional_bind (h : Faithful write value?) (hn : ∀ a, write a ≠ .null) (o : Option α)
    (k : Option α → Option β) : ((Slot.given (ofOption write o)).optional value? >>= k) = k o :=
  congrArg (· >>= k) ((h.option hn).read o)

theorem Faithful.defaulted_some_bind (h : Faithful write value?) (hn : ∀ a, write a ≠ .null)
    (fallback : Option α) (a : α) (k : Option α → Option β) :
    ((Slot.given (write a)).defaulted fallback (asOption? value?) >>= k) = k (some a) :=
  (h.option hn).defaulted_bind fallback (some a) k

theorem defaulted_absent_bind (fallback : α) (value? : Json → Option α) (k : α → Option β) :
    (Slot.absent.defaulted fallback value? >>= k) = k fallback := rfl

end Fields

section Records
variable {fields : List String} {fs : List (String × Json)}

theorem legible_record (h : ∀ f ∈ fs, Legible f.2) : Legible (record fs) := by
  refine .object ?_ ?_ <;> intro m hm <;> obtain ⟨f, hf, rfl⟩ := List.mem_map.1 hm
  · exact body_escape _
  · exact h f hf

theorem members?_record : members? (record fs) = some fs := by
  have hread : (fun m : List Char × Json => (unescape m.1).map fun k => (String.ofList k, m.2)) ∘
      (fun f : String × Json => (escape f.1.toList, f.2)) = pure := by
    funext f
    simp [unescape_escape]
  rw [record, members?, List.mapM_map, hread, List.mapM_pure, List.map_id']
  rfl

theorem asTexts?_record (es : List (String × String)) :
    asTexts? (record (es.map fun e => (e.1, ofString e.2))) = some (.ofList es) := by
  have hread : (fun m : String × Json => (m.2.asString?).map fun v => (m.1, v)) ∘
      (fun e : String × String => (e.1, ofString e.2)) = pure := by
    funext e
    simp [faithful_text.read]
  rw [asTexts?, members?_record]
  change (List.mapM _ (es.map _) >>= fun entries => some (SortedMap.ofList entries)) = _
  rw [List.mapM_map, hread, List.mapM_pure, List.map_id']
  rfl

theorem faithful_texts : Faithful ofTexts asTexts? where
  legible m := by
    refine legible_record fun f hf => ?_
    obtain ⟨e, -, rfl⟩ := List.mem_map.1 hf
    exact faithful_text.legible e.2
  read m := by rw [ofTexts, asTexts?_record, SortedMap.ofList_entries]

theorem memberSlots?_of_nodup (hn : (fs.map (·.1)).Nodup) :
    memberSlots? fields fs = some (fields.map fun f => match fs.lookup f with
      | some j => .given j
      | none => .absent) := by
  refine if_pos (List.all_eq_true.2 fun f _ => decide_eq_true ?_)
  have hc := List.nodup_iff_count.1 hn f
  rwa [List.count, List.countP_map] at hc

/-- The slots of a record that was written, wherever its members stand among the fields. -/
theorem slots?_record_lookup (hn : (fs.map (·.1)).Nodup) :
    slots? fields (record fs) = some (fields.map fun f => match fs.lookup f with
      | some j => .given j
      | none => .absent) := by
  change (members? (record fs)).bind (memberSlots? fields) = _
  rw [members?_record, Option.bind_some, memberSlots?_of_nodup hn]

theorem slots?_record_lookup_bind {β : Type} (hn : (fs.map (·.1)).Nodup) (k : List Slot → Option β) :
    (slots? fields (record fs) >>= k) = k (fields.map fun f => match fs.lookup f with
      | some j => .given j
      | none => .absent) :=
  congrArg (· >>= k) (slots?_record_lookup hn)

/-- The slots of a record that was written: one with the value for each field in it, then empty ones. -/
theorem slots?_record (missing : List String) (hf : fields = fs.map (·.1) ++ missing) (hn : fields.Nodup) :
    slots? fields (record fs) = some (fs.map (fun f => .given f.2) ++ missing.map fun _ => .absent) := by
  obtain ⟨hkeys, -, hdisjoint⟩ := List.nodup_append.1 (hf ▸ hn)
  rw [slots?_record_lookup hkeys, hf, List.map_append, List.map_map]
  congr 2
  · refine List.map_congr_left fun f hmem => ?_
    rw [Function.comp, SortedMap.lookup_of_mem hkeys hmem]
  · refine List.map_congr_left fun f hmem => ?_
    rw [SortedMap.lookup_eq_none_of_notMem fun hk => hdisjoint f hk f hmem rfl]

theorem slots?_record_bind {β : Type} (missing : List String) (hf : fields = fs.map (·.1) ++ missing)
    (hn : fields.Nodup) (k : List Slot → Option β) :
    (slots? fields (record fs) >>= k) = k (fs.map (fun f => .given f.2) ++ missing.map fun _ => .absent) :=
  congrArg (· >>= k) (slots?_record missing hf hn)

/-- A closed record is read as another one if all its members are fields. -/
theorem closedSlots?_record (h : ∀ f ∈ fs, f.1 ∈ fields) :
    closedSlots? fields (record fs) = slots? fields (record fs) := by
  have hall : fs.all (fun m => fields.contains m.1) = true :=
    List.all_eq_true.2 fun f hf => List.contains_iff_mem.2 (h f hf)
  change (members? (record fs)).bind (fun members =>
    if members.all fun m => fields.contains m.1 then memberSlots? fields members else none) =
      (members? (record fs)).bind (memberSlots? fields)
  rw [members?_record, Option.bind_some, if_pos hall]
  rfl

section Flattened
variable {own others : List (String × Json)} {limit : Nat}

theorem keptMembers_record (fs : List (String × Json)) :
    keptMembers limit (fs.map fun f => (escape f.1.toList, f.2)) = fs.all fun f => isKept limit f.2 := by
  induction fs with
  | nil => rfl
  | cons f fs ih => simp [keptMembers, unescape_escape, ih]

theorem isKept_record (fs : List (String × Json)) :
    isKept limit (record fs) = (decide (0 < limit) && fs.all fun f => isKept (limit - 1) f.2) :=
  congrArg (decide (0 < limit) && ·) (keptMembers_record fs)

theorem keptItems_eq_all (items : List Json) : keptItems limit items = items.all (isKept limit) := by
  induction items with
  | nil => rfl
  | cons item items ih => simp [keptItems, ih]

theorem isKept_ofString (s : String) : isKept limit (ofString s) = true := by
  simp [ofString, isKept, unescape_escape]

/-- What is left of a written record without its own fields. -/
private theorem filterMap_others (h : ∀ f ∈ own, f.1 ∈ fields) (h' : ∀ f ∈ others, f.1 ∉ fields) :
    ((((own ++ others).map fun f => (escape f.1.toList, f.2)).zip (own ++ others)).filterMap fun m =>
      if fields.contains m.2.1 then none else some m.1) = others.map fun f => (escape f.1.toList, f.2) := by
  have hzip : ((own ++ others).map fun f => (escape f.1.toList, f.2)).zip (own ++ others) =
      (own ++ others).map fun f => ((escape f.1.toList, f.2), f) := by
    conv in (own ++ others).map _ |>.zip _ => arg 2; rw [← List.map_id (own ++ others)]
    exact List.zip_map'
  have hown : own.filterMap (fun f => if fields.contains f.1 then none else some (escape f.1.toList, f.2)) = [] := by
    refine List.filterMap_eq_nil_iff.2 fun f hf => if_pos ?_
    exact List.contains_iff_mem.2 (h f hf)
  have hothers : others.filterMap (fun f => if fields.contains f.1 then none else some (escape f.1.toList, f.2)) =
      others.map fun f => (escape f.1.toList, f.2) := by
    rw [← List.filterMap_eq_map]
    refine List.filterMap_congr fun f hf => if_neg ?_
    rw [List.contains_iff_mem]
    exact h' f hf
  rw [hzip, List.filterMap_map, List.filterMap_append]
  exact congrArg₂ (· ++ ·) hown hothers

/-- A record is split into the slots of its own fields and the record of the other members. -/
theorem flattened?_record (hf : fields = own.map (·.1)) (hn : ((own ++ others).map (·.1)).Nodup)
    (hk : others.all (fun f => isKept (depthLimit - 1) f.2) = true) :
    flattened? fields (record (own ++ others)) = some (own.map (fun f => .given f.2), record others) := by
  have hslots : memberSlots? fields (own ++ others) = some (own.map fun f => .given f.2) := by
    rw [memberSlots?_of_nodup hn, hf, List.map_map]
    refine congrArg some (List.map_congr_left fun f hmem => ?_)
    rw [Function.comp, SortedMap.lookup_of_mem hn (List.mem_append_left _ hmem)]
  have hown : ∀ f ∈ own, f.1 ∈ fields := fun f hmem => hf ▸ List.mem_map_of_mem hmem
  have hothers : ∀ f ∈ others, f.1 ∉ fields := by
    intro f hmem hfield
    rw [List.map_append, ← hf] at hn
    exact (List.nodup_append.1 hn).2.2 _ hfield _ (List.mem_map_of_mem hmem) rfl
  change ((members? (record (own ++ others))).bind fun keyed => (memberSlots? fields keyed).bind fun slots =>
    if keptMembers (depthLimit - 1) ((((own ++ others).map fun f => (escape f.1.toList, f.2)).zip keyed).filterMap
      fun m => if fields.contains m.2.1 then none else some m.1) then some (slots, object _) else none) = _
  rw [members?_record, Option.bind_some, hslots, Option.bind_some, filterMap_others hown hothers, keptMembers_record,
    if_pos hk]
  rfl

end Flattened

end Records

end DevEnv.Json
