import DevEnv.Proofs.Memory.Calls

/-! The states that a runtime in memory can come to. In all of them every container is filed under its own name
and goes by a number given out before, so that a new container's identifier is its own. -/
namespace DevEnv.Runtime.Memory

/-- What can happen to a runtime: a call, a change from its own side, or other settings. -/
inductive Step (m : Memory) : Memory → Prop where
  | call (c : Call) : Step m (answer c m).2
  | addImage (reference : String) (labels : Labels) (created : Timestamp) :
      Step m (m.addImage reference labels created)
  | occupy (port : UInt16) : Step m (m.occupy port)
  | setStatus (name : String) (status : Status) : Step m (m.setStatus name status).2
  | configure (runtimes : SortedMap String String) (kernel : String) (startDelay : Option Nat) :
      Step m { m with runtimes, kernel, startDelay }

/-- A state that a runtime, empty at first, can come to, in whatever order its lookups come upon the containers. -/
inductive Reachable : Memory → Prop where
  | empty {order : Order} : Reachable { order }
  | step {m m' : Memory} (hm : Reachable m) (h : Step m m') : Reachable m'

theorem Reachable.call {m : Memory} (hm : Reachable m) (c : Call) : Reachable (answer c m).2 :=
  .step hm (.call c)

/-- Containers are filed under their own names, and each is identified by a number of its own given out before. -/
structure Sound (m : Memory) : Prop where
  filed : ∀ {n e}, m.containers.get? n = some e → e.container.name = n
  issued : ∀ {n e}, m.containers.get? n = some e → ∃ i < m.nextId, e.container.id = ⟨hexId i⟩
  distinct : ∀ {n e n' e'}, m.containers.get? n = some e → m.containers.get? n' = some e' →
    e.container.id = e'.container.id → n = n'

section Numbers

/-- The number that hexadecimal digits stand for. -/
def hexValue (cs : List Char) : Nat := cs.foldl (fun n c => 16 * n + (Json.hexValue? c).getD 0) 0

private theorem hexValue_toDigits (n : Nat) : hexValue (Nat.toDigits 16 n) = n := by
  have digit : ∀ d < 16, Json.hexValue? (Nat.digitChar d) = some d := by decide
  induction n using Nat.strongRecOn with
  | ind n ih =>
    by_cases h : n < 16
    · rw [Nat.toDigits_of_lt_base h]
      simp [hexValue, digit n h]
    · have hq := ih (n / 16) (by omega)
      rw [Nat.toDigits_of_base_le (by decide) (by omega)]
      simp only [hexValue, List.foldl_append, List.foldl_cons, List.foldl_nil] at hq ⊢
      rw [hq, digit _ (Nat.mod_lt _ (by decide)), Option.getD_some]
      omega

private theorem hexValue_replicate (k : Nat) (cs : List Char) :
    hexValue (List.replicate k '0' ++ cs) = hexValue cs := by
  induction k with
  | zero => rfl
  | succ k ih => exact ih

/-- Different numbers make different identifiers. -/
theorem hexId_inj {i j : Nat} : hexId i = hexId j ↔ i = j := by
  refine ⟨fun h => ?_, congrArg hexId⟩
  have hv := congrArg (fun s : String => hexValue s.toList) h
  simpa [hexId, hexValue_replicate, hexValue_toDigits] using hv

/-- Identifiers have sixty-four digits at least. -/
theorem length_hexId (n : Nat) : 64 ≤ (hexId n).length := by
  simp only [hexId, String.length_ofList, List.length_append, List.length_replicate]
  omega

theorem hashed_inj {i j : Nat} : "sha256:" ++ hexId i = "sha256:" ++ hexId j ↔ i = j := by
  rw [String.append_right_inj]
  exact hexId_inj

end Numbers

section Found
variable {m m' : Memory} {name : String} {e e' : Entry}

/-- The container that a name leads to is filed under its own name. -/
theorem Sound.get?_of_find? (hm : Sound m) (h : m.find? name = some e) :
    m.containers.get? e.container.name = some e := by
  obtain ⟨key, he, -⟩ := exists_of_find? h
  rwa [hm.filed he]

/-- A name leads to a container that has it, or has it as its identifier. -/
theorem Sound.name_or_id_of_find? (hm : Sound m) (h : m.find? name = some e) :
    e.container.name = name ∨ e.container.id.text = name := by
  obtain ⟨key, he, hmatch⟩ := exists_of_find? h
  rwa [hm.filed he]

theorem Sound.find?_eq_some_iff (hm : Sound m) : m.find? name = some e ↔
    m.key? name = some e.container.name ∧ m.containers.get? e.container.name = some e := by
  rw [Memory.find?_eq_some_iff]
  constructor
  · rintro ⟨key, hkey, he⟩
    rw [hm.filed he]
    exact ⟨hkey, he⟩
  · rintro ⟨hkey, he⟩
    exact ⟨_, hkey, he⟩

/-- A start goes on to some container, if its name leads to one. -/
theorem Sound.exists_aims (hm : Sound m) (h : m.find? name = some e) : ∃ x, Aims m name e x := by
  cases ha : m.find? e.container.name with
  | none => exact absurd rfl (find?_eq_none_iff.1 ha _ e (hm.get?_of_find? h)).1
  | some x => exact ⟨x, h, ha⟩

/-- A start that comes upon the container of its name goes on to that one. -/
theorem Aims.eq_of_name {first : Entry} (h : Aims m name first e) (hname : first.container.name = name) : e = first := by
  have hagain := h.again
  rw [hname, h.found] at hagain
  exact (Option.some.inj hagain).symm

/-- No container of another name has the name as its identifier. -/
def Undisputed (m : Memory) (name : String) : Prop :=
  ∀ n x, m.containers.get? n = some x → x.container.id.text = name → n = name

theorem undisputed_of_no_id (h : ∀ n x, m.containers.get? n = some x → x.container.id.text ≠ name) :
    Undisputed m name := fun n x hx hid => absurd hid (h n x hx)

theorem Kin.undisputed (h : Kin m m') (hu : Undisputed m name) : Undisputed m' name := by
  intro n x' hx' hid
  obtain ⟨x, hx, ha⟩ := h.before hx'
  exact hu n x hx (ha.id ▸ hid)

theorem undisputed_of_find?_eq_none (h : m.find? name = none) : Undisputed m name :=
  undisputed_of_no_id fun n x hx => (find?_eq_none_iff.1 h n x hx).2

/-- A name that is shorter than identifiers are is that of no container. -/
theorem Sound.id_ne (hm : Sound m) (h : name.length < 64) (n : String) (x : Entry)
    (hx : m.containers.get? n = some x) : x.container.id.text ≠ name := by
  rintro rfl
  obtain ⟨i, -, hi⟩ := hm.issued hx
  rw [hi] at h
  exact absurd (length_hexId i) (Nat.not_le_of_lt h)

theorem Sound.undisputed (hm : Sound m) (h : name.length < 64) : Undisputed m name := undisputed_of_no_id (hm.id_ne h)

theorem Undisputed.find?_of_get? (h : Undisputed m name) (he : m.containers.get? name = some e) :
    m.find? name = some e := by
  refine find?_of_sole he (.inl rfl) fun key x hx hmatch => ?_
  exact hmatch.elim id fun hid => h key x hx hid

theorem Undisputed.get?_of_find? (h : Undisputed m name) (hf : m.find? name = some e) :
    m.containers.get? name = some e := by
  obtain ⟨key, he, hmatch⟩ := exists_of_find? hf
  obtain rfl : key = name := hmatch.elim id fun hid => h key e he hid
  exact he

theorem Undisputed.eq_of_aims {first : Entry} (hm : Sound m) (h : Undisputed m name) (ha : Aims m name first e) :
    e = first := ha.eq_of_name (hm.filed (h.get?_of_find? ha.found))

theorem Sound.put_filed (hm : Sound m) (he : m.containers.get? e.container.name = some e) (ha : e.Akin e') :
    Sound (m.put e') := by
  -- every container was there before under the same name and with the same identifier
  have before {n x} (hk : (m.put e').containers.get? n = some x) : ∃ y, m.containers.get? n = some y ∧
      x.container.name = y.container.name ∧ x.container.id = y.container.id := by
    rw [Memory.put, ha.name] at hk
    rcases SortedMap.get?_insert_cases hk with ⟨rfl, rfl⟩ | hk
    · exact ⟨e, he, ha.name, ha.id⟩
    · exact ⟨x, hk, rfl, rfl⟩
  refine ⟨fun hk => ?_, fun hk => ?_, fun hk hk' hid => ?_⟩
  · obtain ⟨y, hy, hn, _⟩ := before hk
    exact hn.trans (hm.filed hy)
  · obtain ⟨y, hy, _, hi⟩ := before hk
    rw [hi]
    exact hm.issued hy
  · obtain ⟨y, hy, _, hi⟩ := before hk
    obtain ⟨y', hy', _, hi'⟩ := before hk'
    exact hm.distinct hy hy' (hi.symm.trans (hid.trans hi'))

theorem Sound.put (hm : Sound m) (h : m.find? name = some e) (hc : e.Continues e') : Sound (m.put e') :=
  hm.put_filed (hm.get?_of_find? h) hc.toAkin

theorem Sound.erase (hm : Sound m) (k : String) : Sound { m with containers := m.containers.erase k } where
  filed hk := hm.filed (SortedMap.get?_of_get?_erase hk)
  issued hk := hm.issued (SortedMap.get?_of_get?_erase hk)
  distinct hk hk' := hm.distinct (SortedMap.get?_of_get?_erase hk) (SortedMap.get?_of_get?_erase hk')

/-- The identifier that comes next is that of no container. -/
theorem Sound.id_ne_next (hm : Sound m) {n : String} {e : Entry} (h : m.containers.get? n = some e) :
    e.container.id ≠ ⟨hexId m.nextId⟩ := by
  obtain ⟨i, hi, he⟩ := hm.issued h
  rw [he]
  intro hid
  have := hexId_inj.1 (Identifier.mk.inj hid)
  omega

theorem Sound.create (hm : Sound m) (spec : Container.Spec) :
    Sound { m.put (m.newEntry spec) with nextId := m.nextId + 1 } := by
  have before {n x} (hk : (m.put (m.newEntry spec)).containers.get? n = some x) :
      n = spec.name ∧ x = m.newEntry spec ∨ m.containers.get? n = some x := SortedMap.get?_insert_cases hk
  refine ⟨fun hk => ?_, fun hk => ?_, fun hk hk' he => ?_⟩
  · rcases before hk with ⟨rfl, rfl⟩ | hk
    · rfl
    · exact hm.filed hk
  · rcases before hk with ⟨rfl, rfl⟩ | hk
    · exact ⟨m.nextId, Nat.lt_succ_self _, rfl⟩
    · obtain ⟨i, hi, he⟩ := hm.issued hk
      exact ⟨i, Nat.lt_succ_of_lt hi, he⟩
  · rcases before hk with ⟨rfl, rfl⟩ | hk <;> rcases before hk' with ⟨rfl, rfl⟩ | hk'
    · rfl
    · exact absurd he.symm (hm.id_ne_next hk')
    · exact absurd he (hm.id_ne_next hk)
    · exact hm.distinct hk hk' he

private theorem Sound.same (hm : Sound m) (hc : m'.containers = m.containers) (hn : m.nextId ≤ m'.nextId) :
    Sound m' := by
  refine ⟨fun hk => hm.filed (hc ▸ hk), fun hk => ?_, fun hk hk' => hm.distinct (hc ▸ hk) (hc ▸ hk')⟩
  obtain ⟨i, hi, he⟩ := hm.issued (hc ▸ hk)
  exact ⟨i, Nat.lt_of_lt_of_le hi hn, he⟩

theorem Sound.call (hm : Sound m) (c : Call) : Sound (answer c m).2 := by
  have ho := outcome_of_call m c
  generalize (answer c m).2 = m' at ho
  cases ho with
  | same _ => exact hm
  | looked hf => exact hm.put hf (Entry.continues_advance _)
  | created _ => exact hm.create _
  | started ha _ _ => exact hm.put ha.again (Entry.continues_started _ _)
  | turned _ hf ht => exact hm.put hf (Entry.continues_turned ht.canBecome)
  | removed _ _ _ => exact hm.erase _
  | dropped _ => exact hm.same rfl (Nat.le_refl _)

private theorem Sound.step (hm : Sound m) (h : Step m m') : Sound m' := by
  cases h with
  | call c => exact hm.call c
  | addImage reference labels created => exact hm.same rfl (Nat.le_succ _)
  | occupy port => exact hm.same rfl (Nat.le_refl _)
  | setStatus name status =>
    rcases setStatus_cases m name status with ⟨e, hf, hc, h⟩ | ⟨_, h⟩ <;> rw [h]
    · exact hm.put hf (Entry.continues_turned hc)
    · exact hm
  | configure runtimes kernel startDelay => exact hm.same rfl (Nat.le_refl _)

/-- Whatever happens, names and identifiers tell the containers apart. -/
theorem Reachable.sound (h : Reachable m) : Sound m := by
  induction h with
  | empty =>
    constructor
    · intro _ _ h
      cases h
    · intro _ _ h
      cases h
    · intro _ _ _ _ h
      cases h
  | step _ hs ih => exact ih.step hs

theorem images_of_call (m : Memory) {c : Call} (hc : ∀ reference, c ≠ .removeImage reference) :
    (answer c m).2.images = m.images := by
  have ho := outcome_of_call m c
  generalize (answer c m).2 = m' at ho
  cases ho with
  | dropped _ => exact absurd rfl (hc _)
  | _ => rfl

/-- The container that a call is carried out on. -/
def subject? (m : Memory) : Call → Option Entry
  | .start name => (m.find? name).bind fun first => m.find? first.container.name
  | .inspect name | .pause name | .unpause name | .kill name | .remove name _ => m.find? name
  | .create _ | .info | .list _ | .inspectImage _ | .listImages _ | .removeImage _ => none

theorem subject?_start_iff : m.subject? (.start name) = some e ↔ ∃ first, Aims m name first e := by
  rw [subject?, Option.bind_eq_some_iff]
  exact exists_congr fun first => ⟨fun h => ⟨h.1, h.2⟩, fun h => ⟨h.found, h.again⟩⟩

theorem Turns.subject?_eq {c : Call} {s t : Status} (h : Turns c s t) (about : target c = some name) :
    m.subject? c = m.find? name := by
  cases h <;> cases about <;> rfl

/-- A call that is carried out on another container changes nothing about a container nor about the image it was created
from. -/
theorem Sound.frame_of_call (hm : Sound m) (he : m.containers.get? e.container.name = some e) {c : Call}
    (hne : m.subject? c ≠ some e) : (answer c m).2.containers.get? e.container.name = some e ∧
      (answer c m).2.images.get? e.container.image = m.images.get? e.container.image := by
  -- what is put or taken away is another container, and so it has another name
  have ne_of_find? {name : String} {x : Entry} (hx : m.find? name = some x) (hxe : x ≠ e) :
      e.container.name ≠ x.container.name := by
    intro hname
    have hget := hm.get?_of_find? hx
    rw [← hname, he] at hget
    exact hxe (Option.some.inj hget).symm
  have put {name : String} {x x' : Entry} (hx : m.find? name = some x) (hc : x.Continues x') (hxe : x ≠ e) :
      (m.put x').containers.get? e.container.name = some e := by
    rw [Memory.put, hc.name, SortedMap.get?_insert_ne (ne_of_find? hx hxe), he]
  have ho := outcome_of_call m c
  generalize (answer c m).2 = m' at ho
  cases ho with
  | same _ => exact ⟨he, rfl⟩
  | looked hf =>
    refine ⟨put hf (Entry.continues_advance _) ?_, rfl⟩
    rintro rfl
    exact hne hf
  | @created spec ha =>
    have hname : e.container.name ≠ spec.name := by
      intro hname
      rw [hname, ha] at he
      cases he
    exact ⟨(SortedMap.get?_insert_ne hname).trans he, rfl⟩
  | started ha _ _ =>
    refine ⟨put ha.again (Entry.continues_started _ _) ?_, rfl⟩
    rintro rfl
    exact hne (subject?_start_iff.2 ⟨_, ha⟩)
  | turned about hf ht =>
    refine ⟨put hf (Entry.continues_turned ht.canBecome) ?_, rfl⟩
    rintro rfl
    exact hne ((ht.subject?_eq about).trans hf)
  | removed hf _ _ =>
    refine ⟨(SortedMap.get?_erase_ne (ne_of_find? hf ?_)).trans he, rfl⟩
    rintro rfl
    exact hne hf
  | @dropped reference hu =>
    have himage : e.container.image ≠ reference := hu e (SortedMap.mem_values.2 ⟨_, he⟩)
    exact ⟨he, SortedMap.get?_erase_ne himage⟩

/-- A container that goes on is found by the same names. -/
theorem Sound.find?_put (hm : Sound m) (h : m.find? name = some e) (hc : e.Continues e') :
    (m.put e').find? name = some e' := by
  have he := hm.get?_of_find? h
  rw [(hm.put h hc).find?_eq_some_iff, key?_put he hc.toAkin, hc.name]
  exact ⟨(hm.find?_eq_some_iff.1 h).1, by rw [Memory.put, hc.name, SortedMap.get?_insert_self]⟩

/-- A name that leads to another container still does. -/
theorem Sound.find?_put_ne (hm : Sound m) {x : Entry} (he : m.containers.get? e.container.name = some e)
    (ha : e.Akin e') (h : m.find? name = some x) (hne : x.container.name ≠ e.container.name) :
    (m.put e').find? name = some x := by
  obtain ⟨hkey, hx⟩ := hm.find?_eq_some_iff.1 h
  rw [(hm.put_filed he ha).find?_eq_some_iff, key?_put he ha]
  exact ⟨hkey, by rw [Memory.put, ha.name, SortedMap.get?_insert_ne hne, hx]⟩

/-- A start makes for another version of the container that it goes on to. -/
theorem Aims.exists_continues {first : Entry} (hm : Sound m) (h : Aims m name first e) :
    ∃ e', e.Continues e' ∧ (m.start name).2 = m.put e' := by
  rcases start_cases m name with ⟨first', x, ha, hs, hfree⟩ | hsame
  · obtain ⟨rfl, rfl⟩ := h.unique ha
    exact ⟨e.started m.startDelay, e.continues_started _, by rw [ha.start_of_free hs hfree]⟩
  · exact ⟨e, ⟨.refl e, .inl rfl⟩, by rw [hsame, put_of_get? (hm.get?_of_find? h.again)]⟩

/-- Inspections and starts bring containers further, and that is all. -/
theorem Sound.kin_of_call (hm : Sound m) {c : Call} (hc : c = .start name ∨ c = .inspect name) :
    Kin m (answer c m).2 := by
  rcases hc with rfl | rfl
  · cases hf : m.find? name with
    | none =>
      have hsame : (m.start name).2 = m := congrArg Prod.snd (withFound_of_find?_eq_none hf)
      dsimp only [answer]
      rw [hsame]
      exact .refl m
    | some first =>
      obtain ⟨e, ha⟩ := hm.exists_aims hf
      obtain ⟨e', hcont, hput⟩ := ha.exists_continues hm
      dsimp only [answer]
      rw [hput]
      exact kin_put (hm.get?_of_find? ha.again) hcont.toAkin
  · cases hf : m.find? name with
    | none =>
      dsimp only [answer]
      rw [inspect_of_find?_eq_none hf]
      exact .refl m
    | some e =>
      dsimp only [answer]
      rw [inspect_of_find? hf]
      exact kin_put (hm.get?_of_find? hf) e.continues_advance.toAkin

end Found

section Images
variable {m m' : Memory} {reference : String} {i : StoredImage}

/-- Images go by numbers given out before, each by one of its own. -/
structure Catalogued (m : Memory) : Prop where
  issued : ∀ {r i}, m.images.get? r = some i → ∃ j < m.nextId, i.id = ⟨"sha256:" ++ hexId j⟩
  distinct : ∀ {r i r' i'}, m.images.get? r = some i → m.images.get? r' = some i' → i.id = i'.id → r = r'

/-- No call registers an image. -/
theorem image_of_call (c : Call) (h : (answer c m).2.images.get? reference = some i) :
    m.images.get? reference = some i := by
  have ho := outcome_of_call m c
  generalize (answer c m).2 = m' at h ho
  cases ho with
  | dropped _ => exact SortedMap.get?_of_get?_erase h
  | _ => exact h

theorem nextId_le_call (m : Memory) (c : Call) : m.nextId ≤ (answer c m).2.nextId := by
  have ho := outcome_of_call m c
  generalize (answer c m).2 = m' at ho
  cases ho with
  | created _ => exact Nat.le_succ _
  | _ => exact Nat.le_refl _

private theorem Catalogued.shrink (hm : Catalogued m)
    (hi : ∀ {r i}, m'.images.get? r = some i → m.images.get? r = some i) (hn : m.nextId ≤ m'.nextId) :
    Catalogued m' := by
  refine ⟨fun hk => ?_, fun hk hk' => hm.distinct (hi hk) (hi hk')⟩
  obtain ⟨j, hj, he⟩ := hm.issued (hi hk)
  exact ⟨j, Nat.lt_of_lt_of_le hj hn, he⟩

private theorem Catalogued.addImage (hm : Catalogued m) (reference : String) (labels : Labels)
    (created : Timestamp) : Catalogued (m.addImage reference labels created) := by
  have before {r i} (hk : (m.addImage reference labels created).images.get? r = some i) :
      r = reference ∧ i.id = ⟨"sha256:" ++ hexId m.nextId⟩ ∨ m.images.get? r = some i := by
    rcases SortedMap.get?_insert_cases hk with ⟨hr, rfl⟩ | hk
    · exact .inl ⟨hr, rfl⟩
    · exact .inr hk
  have fresh {r i} (hk : m.images.get? r = some i) : i.id ≠ ⟨"sha256:" ++ hexId m.nextId⟩ := by
    obtain ⟨j, hj, he⟩ := hm.issued hk
    rw [he]
    intro hid
    have := hashed_inj.1 (Identifier.mk.inj hid)
    omega
  constructor
  · intro r i hk
    rcases before hk with ⟨_, hid⟩ | hk
    · exact ⟨m.nextId, Nat.lt_succ_self _, hid⟩
    · obtain ⟨j, hj, he⟩ := hm.issued hk
      exact ⟨j, Nat.lt_succ_of_lt hj, he⟩
  · intro r i r' i' hk hk' he
    rcases before hk with ⟨hr, hid⟩ | hold <;> rcases before hk' with ⟨hr', hid'⟩ | hold'
    · exact hr.trans hr'.symm
    · exact absurd (he.symm.trans hid) (fresh hold')
    · exact absurd (he.trans hid') (fresh hold)
    · exact hm.distinct hold hold' he

/-- Whatever happens, identifiers tell the images apart. -/
theorem Reachable.catalogued (h : Reachable m) : Catalogued m := by
  induction h with
  | empty => exact ⟨nofun, nofun⟩
  | step _ hs ih =>
    cases hs with
    | call c => exact ih.shrink (image_of_call c) (nextId_le_call _ c)
    | addImage reference labels created => exact ih.addImage reference labels created
    | occupy port => exact ih.shrink id (Nat.le_refl _)
    | setStatus name status =>
      rcases setStatus_cases _ name status with ⟨_, _, _, h⟩ | ⟨_, h⟩ <;> rw [h]
      · exact ih.shrink id (Nat.le_refl _)
      · exact ih
    | configure runtimes kernel startDelay => exact ih.shrink id (Nat.le_refl _)

/-- Where a reference is no tag, the image that has it as its identifier is found. -/
theorem Catalogued.inspectImage_of_id (hm : Catalogued m) (hr : m.images.get? reference = none) {tag : String}
    (hi : m.images.get? tag = some i) (hid : i.id.text = reference) : m.inspectImage reference = .ok i := by
  have hmem : i ∈ m.images.values := SortedMap.mem_values.2 ⟨tag, hi⟩
  simp only [inspectImage, hr]
  cases hf : m.images.values.find? (·.id.text = reference) with
  | none => simpa [hid] using List.find?_eq_none.1 hf i hmem
  | some j =>
    obtain ⟨tag', hj⟩ := SortedMap.mem_values.1 (List.mem_of_find?_eq_some hf)
    have hj' : j.id.text = reference := by simpa using List.find?_some hf
    obtain rfl := hm.distinct hj hi (congrArg Identifier.mk (hj'.trans hid.symm))
    rw [Option.some.inj (hj.symm.trans hi)]

/-- The only tag of an image is the reference that it is filed under. -/
theorem Reachable.tags_eq (h : Reachable m) (hi : m.images.get? reference = some i) : i.tags = [reference] := by
  induction h generalizing reference i with
  | empty => cases hi
  | step _ hs ih =>
    cases hs with
    | call c => exact ih (image_of_call c hi)
    | addImage added labels created =>
      rcases SortedMap.get?_insert_cases hi with ⟨rfl, rfl⟩ | hold
      · rfl
      · exact ih hold
    | occupy port => exact ih hi
    | setStatus name status =>
      refine ih ?_
      rcases setStatus_cases _ name status with ⟨_, _, _, h⟩ | ⟨_, h⟩ <;> rwa [h] at hi
    | configure runtimes kernel startDelay => exact ih hi

end Images

end DevEnv.Runtime.Memory
