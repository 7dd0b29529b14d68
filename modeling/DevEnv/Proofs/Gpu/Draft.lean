import Mathlib.Data.List.Induction
import DevEnv.Proofs.Gpu.Spec

/-! What the fields of a GPU specification come to. Taking them in one after the other succeeds where each
part is told at most once, and gives the readings of what is told, whatever the order. -/
namespace DevEnv.Gpu.Spec

section Lone
variable {α : Type} {read : String → Except SpecError α}

/-- At most one text, and what is read from it. -/
inductive Lone (read : String → Except SpecError α) : List String → Option α → Prop
  | nothing : Lone read [] none
  | text {s : String} {x : α} (h : read s = .ok x) : Lone read [s] (some x)

theorem lone_nil_iff {p : Option α} : Lone read [] p ↔ p = none :=
  ⟨fun | .nothing => rfl, fun h => h ▸ .nothing⟩

theorem lone_none_iff {texts : List String} : Lone read texts none ↔ texts = [] :=
  ⟨fun | .nothing => rfl, fun h => h ▸ .nothing⟩

theorem lone_some_iff {texts : List String} {x : α} :
    Lone read texts (some x) ↔ ∃ s, texts = [s] ∧ read s = .ok x := by
  constructor
  · intro h
    cases h with
    | text h => exact ⟨_, rfl, h⟩
  · rintro ⟨s, rfl, h⟩
    exact .text h

theorem lone_concat_iff {texts : List String} {s : String} {p : Option α} :
    Lone read (texts ++ [s]) p ↔ texts = [] ∧ ∃ x, read s = .ok x ∧ p = some x := by
  constructor
  · intro h
    generalize ht : texts ++ [s] = all at h
    cases h with
    | nothing => simp at ht
    | text hx =>
      cases texts with
      | nil =>
        cases ht
        exact ⟨rfl, _, hx, rfl⟩
      | cons t texts => simp at ht
  · rintro ⟨rfl, x, hx, rfl⟩
    exact .text hx

end Lone

/-- The key of a field and its value. A field without a key gives a count. -/
def told (field : String) : String × String := (Text.cut '=' field).getD ("count", field)

def keys : List String := ["driver", "count", "device", "capabilities", "options"]

/-- The values of the fields with a key. -/
def values (key : String) (fields : List String) : List String :=
  fields.filterMap fun f => if (told f).1 = key then some (told f).2 else none

section Concat
variable {α : Type} {read : String → Except SpecError α} {field k key s : String} {fields : List String} {p : Option α}

theorem lone_values_self (h : told field = (k, s)) : Lone read (values k (fields ++ [field])) p ↔
    Lone read (values k fields) none ∧ ∃ x, read s = .ok x ∧ p = some x := by
  have hvalues : values k (fields ++ [field]) = values k fields ++ [s] := by simp [values, List.filterMap_append, h]
  rw [hvalues, lone_concat_iff, lone_none_iff]

theorem lone_values_ne (h : told field = (k, s)) (hne : k ≠ key) :
    Lone read (values key (fields ++ [field])) p ↔ Lone read (values key fields) p := by
  have hvalues : values key (fields ++ [field]) = values key fields := by
    simp [values, List.filterMap_append, h, hne]
  rw [hvalues]

end Concat

/-- What the fields tell: no part twice, and nothing but the parts there are. -/
structure Tells (fields : List String) (d : Draft) : Prop where
  known : ∀ f ∈ fields, (told f).1 ∈ keys
  driver : Lone .ok (values "driver" fields) d.driver
  count : Lone readCount (values "count" fields) d.count
  ids : Lone readIds (values "device" fields) d.ids
  capabilities : Lone (fun s => .ok (readCapabilities s)) (values "capabilities" fields) d.capabilities
  options : Lone readOptions (values "options" fields) d.options

/-- What taking in a field can do: it sets one part that is not set yet. -/
inductive Draft.Adds (d : Draft) (field : String) : Draft → Prop
  | driver {s : String} (hf : told field = ("driver", s)) (hd : d.driver = none) :
    d.Adds field { d with driver := some s }
  | count {s : String} {n : Int64} (hf : told field = ("count", s)) (hd : d.count = none) (h : readCount s = .ok n) :
    d.Adds field { d with count := some n }
  | ids {s : String} {ids : List String} (hf : told field = ("device", s)) (hd : d.ids = none)
      (h : readIds s = .ok ids) : d.Adds field { d with ids := some ids }
  | capabilities {s : String} (hf : told field = ("capabilities", s)) (hd : d.capabilities = none) :
    d.Adds field { d with capabilities := some (readCapabilities s) }
  | options {s : String} {m : SortedMap String String} (hf : told field = ("options", s)) (hd : d.options = none)
      (h : readOptions s = .ok m) : d.Adds field { d with options := some m }

private theorem once_bind_eq_ok_iff {α : Type} {key : String} {old : Option α} {new : Except SpecError α}
    {f : Option α → Draft} {d : Draft} :
    (once key old new >>= fun p => pure (f p)) = .ok d ↔ old = none ∧ ∃ x, new = .ok x ∧ d = f (some x) := by
  unfold once
  cases old with
  | none => cases new <;> simp [bind, Except.bind, Except.map, pure, Except.pure, eq_comm]
  | some _ => simp [bind, Except.bind]

variable {fields : List String} {field : String} {d d' : Draft}

theorem Draft.adds_of_add (h : d.add field = .ok d') : d.Adds field d' := by
  unfold Draft.add at h
  split at h
  · next hf =>
    obtain ⟨hd, n, hn, rfl⟩ := once_bind_eq_ok_iff.1 h
    exact .count (by simp [told, hf]) hd hn
  · next key value hf =>
    have htold : told field = (key, value) := by simp [told, hf]
    split at h
    · next hk =>
      obtain ⟨hd, _, hs, rfl⟩ := once_bind_eq_ok_iff.1 h
      cases hs
      exact .driver (hk ▸ htold) hd
    split at h
    · next hk =>
      obtain ⟨hd, n, hn, rfl⟩ := once_bind_eq_ok_iff.1 h
      exact .count (hk ▸ htold) hd hn
    split at h
    · next hk =>
      obtain ⟨hd, ids, hids, rfl⟩ := once_bind_eq_ok_iff.1 h
      exact .ids (hk ▸ htold) hd hids
    split at h
    · next hk =>
      obtain ⟨hd, _, hc, rfl⟩ := once_bind_eq_ok_iff.1 h
      cases hc
      exact .capabilities (hk ▸ htold) hd
    split at h
    · next hk =>
      obtain ⟨hd, m, hm, rfl⟩ := once_bind_eq_ok_iff.1 h
      exact .options (hk ▸ htold) hd hm
    · cases h

theorem Draft.Adds.add (h : d.Adds field d') : d.add field = .ok d' := by
  have hcut {k s : String} (hf : told field = (k, s)) (hk : k ≠ "count") : Text.cut '=' field = some (k, s) := by
    cases hc : Text.cut '=' field with
    | some e => simpa [told, hc] using hf
    | none =>
      have hcount : ("count", field) = (k, s) := by simpa [told, hc] using hf
      exact absurd (congrArg Prod.fst hcount).symm hk
  cases h with
  | driver hf hd => simp [Draft.add, hcut hf, once, hd, bind, Except.bind, Except.map, pure, Except.pure]
  | count hf hd h =>
    unfold told at hf
    unfold Draft.add
    cases hc : Text.cut '=' field with
    | some e =>
      rw [hc] at hf
      obtain rfl : e = _ := hf
      simp [once, hd, h, bind, Except.bind, Except.map, pure, Except.pure]
    | none =>
      rw [hc] at hf
      cases hf
      simp [once, hd, h, bind, Except.bind, Except.map, pure, Except.pure]
  | ids hf hd h => simp [Draft.add, hcut hf, once, hd, h, bind, Except.bind, Except.map, pure, Except.pure]
  | capabilities hf hd => simp [Draft.add, hcut hf, once, hd, bind, Except.bind, Except.map, pure, Except.pure]
  | options hf hd h => simp [Draft.add, hcut hf, once, hd, h, bind, Except.bind, Except.map, pure, Except.pure]

theorem tells_nil_iff : Tells [] d ↔ d = {} := by
  constructor
  · intro h
    obtain ⟨-, hdriver, hcount, hids, hcapabilities, hoptions⟩ := h
    cases d
    obtain rfl := lone_nil_iff.1 hdriver
    obtain rfl := lone_nil_iff.1 hcount
    obtain rfl := lone_nil_iff.1 hids
    obtain rfl := lone_nil_iff.1 hcapabilities
    obtain rfl := lone_nil_iff.1 hoptions
    rfl
  · rintro rfl
    exact ⟨by simp, .nothing, .nothing, .nothing, .nothing, .nothing⟩

theorem Tells.concat (h : Tells fields d) (hadd : d.Adds field d') : Tells (fields ++ [field]) d' := by
  have known {k s : String} (hf : told field = (k, s)) (hk : k ∈ keys) :
      ∀ f ∈ fields ++ [field], (told f).1 ∈ keys := by
    intro f hmem
    rcases List.mem_append.1 hmem with hmem | hmem
    · exact h.known f hmem
    · rw [List.mem_singleton.1 hmem, hf]
      exact hk
  have keep {α : Type} {read : String → Except SpecError α} {k s other : String} {p : Option α}
      (hf : told field = (k, s)) (hne : k ≠ other) (hl : Lone read (values other fields) p) :
      Lone read (values other (fields ++ [field])) p := (lone_values_ne hf hne).2 hl
  cases hadd with
  | driver hf hd =>
    have hset := (lone_values_self hf).2 ⟨hd ▸ h.driver, _, rfl, rfl⟩
    exact ⟨known hf (by decide), hset, keep hf (by decide) h.count, keep hf (by decide) h.ids,
      keep hf (by decide) h.capabilities, keep hf (by decide) h.options⟩
  | count hf hd hn =>
    have hset := (lone_values_self hf).2 ⟨hd ▸ h.count, _, hn, rfl⟩
    exact ⟨known hf (by decide), keep hf (by decide) h.driver, hset, keep hf (by decide) h.ids,
      keep hf (by decide) h.capabilities, keep hf (by decide) h.options⟩
  | ids hf hd hw =>
    have hset := (lone_values_self hf).2 ⟨hd ▸ h.ids, _, hw, rfl⟩
    exact ⟨known hf (by decide), keep hf (by decide) h.driver, keep hf (by decide) h.count, hset,
      keep hf (by decide) h.capabilities, keep hf (by decide) h.options⟩
  | capabilities hf hd =>
    have hnone : Lone (fun s => .ok (readCapabilities s)) (values "capabilities" fields) none := hd ▸ h.capabilities
    have hset := (lone_values_self hf).2 ⟨hnone, _, rfl, rfl⟩
    exact ⟨known hf (by decide), keep hf (by decide) h.driver, keep hf (by decide) h.count,
      keep hf (by decide) h.ids, hset, keep hf (by decide) h.options⟩
  | options hf hd hm =>
    have hset := (lone_values_self hf).2 ⟨hd ▸ h.options, _, hm, rfl⟩
    exact ⟨known hf (by decide), keep hf (by decide) h.driver, keep hf (by decide) h.count,
      keep hf (by decide) h.ids, keep hf (by decide) h.capabilities, hset⟩

theorem Tells.of_concat (h : Tells (fields ++ [field]) d') : ∃ d, Tells fields d ∧ d.Adds field d' := by
  obtain ⟨known, driver, count, ids, capabilities, options⟩ := h
  obtain ⟨key, s, hf⟩ : ∃ key s, told field = (key, s) := ⟨_, _, rfl⟩
  have hkey : key ∈ keys := by simpa [hf] using known field (by simp)
  have known : ∀ f ∈ fields, (told f).1 ∈ keys := fun f hmem => known f (List.mem_append_left _ hmem)
  have keep {α : Type} {read : String → Except SpecError α} {other : String} {p : Option α} (hne : key ≠ other)
      (hl : Lone read (values other (fields ++ [field])) p) : Lone read (values other fields) p :=
    (lone_values_ne hf hne).1 hl
  obtain ⟨driver', count', ids', capabilities', options'⟩ := d'
  simp only [keys, List.mem_cons, List.not_mem_nil, or_false] at hkey
  rcases hkey with rfl | rfl | rfl | rfl | rfl
  · obtain ⟨hnone, _, hs, rfl⟩ := (lone_values_self hf).1 driver
    cases hs
    exact ⟨⟨none, count', ids', capabilities', options'⟩, ⟨known, hnone, keep (by decide) count, keep (by decide) ids,
      keep (by decide) capabilities, keep (by decide) options⟩, .driver hf rfl⟩
  · obtain ⟨hnone, n, hn, rfl⟩ := (lone_values_self hf).1 count
    exact ⟨⟨driver', none, ids', capabilities', options'⟩, ⟨known, keep (by decide) driver, hnone, keep (by decide) ids,
      keep (by decide) capabilities, keep (by decide) options⟩, .count hf rfl hn⟩
  · obtain ⟨hnone, w, hw, rfl⟩ := (lone_values_self hf).1 ids
    exact ⟨⟨driver', count', none, capabilities', options'⟩, ⟨known, keep (by decide) driver, keep (by decide) count,
      hnone, keep (by decide) capabilities, keep (by decide) options⟩, .ids hf rfl hw⟩
  · obtain ⟨hnone, _, hc, rfl⟩ := (lone_values_self hf).1 capabilities
    cases hc
    exact ⟨⟨driver', count', ids', none, options'⟩, ⟨known, keep (by decide) driver, keep (by decide) count,
      keep (by decide) ids, hnone, keep (by decide) options⟩, .capabilities hf rfl⟩
  · obtain ⟨hnone, m, hm, rfl⟩ := (lone_values_self hf).1 options
    exact ⟨⟨driver', count', ids', capabilities', none⟩, ⟨known, keep (by decide) driver, keep (by decide) count,
      keep (by decide) ids, keep (by decide) capabilities, hnone⟩, .options hf rfl hm⟩

/-- Taking in fields succeeds where they tell each part at most once, and gives what they tell. -/
theorem foldlM_add_eq_ok_iff : fields.foldlM Draft.add {} = .ok d ↔ Tells fields d := by
  induction fields using List.reverseRecOn generalizing d with
  | nil =>
    rw [tells_nil_iff, List.foldlM_nil, eq_comm]
    simp [pure, Except.pure]
  | append_singleton fields field ih =>
    rw [List.foldlM_append]
    simp only [List.foldlM_cons, List.foldlM_nil, bind_pure]
    constructor
    · intro h
      cases hfold : fields.foldlM Draft.add {} with
      | error fault =>
        rw [hfold] at h
        cases h
      | ok before =>
        rw [hfold] at h
        exact (ih.1 hfold).concat (Draft.adds_of_add h)
    · intro h
      obtain ⟨before, hbefore, hadd⟩ := h.of_concat
      rw [ih.2 hbefore]
      exact hadd.add

/-- What the finished request says of each part. -/
structure Finishes (draft : Draft) (device : Device) : Prop where
  total : draft.total = .ok device.count
  driver : device.driver = draft.driver.getD Device.defaultDriver
  ids : device.ids = draft.ids.getD []
  capabilities : device.capabilities = [draft.capabilities.getD Device.defaultCapabilities]
  options : device.options = draft.options.getD ∅

theorem finish_eq_ok_iff {device : Device} : d.finish = .ok device ↔ Finishes d device := by
  unfold Draft.finish
  constructor
  · intro h
    cases ht : d.total with
    | error fault => simp [ht, bind, Except.bind] at h
    | ok n =>
      rw [ht] at h
      cases h
      exact ⟨ht, rfl, rfl, rfl, rfl⟩
  · rintro ⟨ht, hdriver, hids, hcapabilities, hoptions⟩
    rw [ht, ← hdriver, ← hids, ← hcapabilities, ← hoptions]
    rfl

/-- A specification gives the request that its fields tell, provided there are fields. -/
theorem read_eq_ok_iff {spec : String} {device : Device} : read spec = .ok device ↔
    ∃ fs draft, Spec.fields spec = .ok fs ∧ fs ≠ [] ∧ Tells fs draft ∧ Finishes draft device := by
  unfold read
  cases Spec.fields spec with
  | error fault => simp [bind, Except.bind]
  | ok fs =>
    cases fs with
    | nil => simp [bind, Except.bind, throw, throwThe, MonadExceptOf.throw]
    | cons f more =>
      simp only [← foldlM_add_eq_ok_iff, ← finish_eq_ok_iff]
      cases hfold : (f :: more).foldlM Draft.add {} <;>
        simp [hfold, bind, Except.bind]

end DevEnv.Gpu.Spec
