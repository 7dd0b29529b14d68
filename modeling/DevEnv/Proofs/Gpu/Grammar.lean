import DevEnv.Proofs.Gpu.Draft

/-! The grammar of GPU specifications, said of the fields without regard to their order. A specification is accepted
if its fields tell each key at most once and no value is malformed, and then every part of the request can be read off
the field that tells it. -/
namespace DevEnv.Gpu.Spec

variable {fs gs : List String} {s key : String} {n : Int64} {d d' : Device} {draft : Draft}

section Values

/-- The number that a text gives as a count: all devices, or so many. -/
inductive Counts : String → Int64 → Prop where
  | all : Counts "all" (-1)
  | number {s : String} {n : Int64} (read : Text.readInt64? s = some n) (nonneg : 0 ≤ n) : Counts s n

theorem readCount_eq_ok_iff : readCount s = .ok n ↔ Counts s n := by
  constructor
  · intro h
    unfold readCount at h
    split at h
    · next hs =>
      cases h
      exact hs ▸ .all
    · split at h
      · next m hm =>
        split at h
        · cases h
        · next hneg =>
          cases h
          exact .number hm (Int64.not_lt.1 hneg)
      · cases h
  · rintro (_ | ⟨hread, hn⟩)
    · exact readCount_all
    · have hall : s ≠ "all" := by
        rintro rfl
        revert hread
        have hnone : Text.readInt64? "all" = none := by decide
        rw [hnone]
        nofun
      rw [readCount, if_neg hall, hread]
      exact if_neg (Int64.not_lt.2 hn)

theorem Counts.unique {n' : Int64} (h : Counts s n) (h' : Counts s n') : n = n' :=
  Except.ok.inj ((readCount_eq_ok_iff.2 h).symm.trans (readCount_eq_ok_iff.2 h'))

theorem readIds_eq_ok_iff {ids : List String} : readIds s = .ok ids ↔ words s ≠ [] ∧ ids = words s := by
  unfold readIds
  by_cases h : words s = []
  · simp [h]
  · rw [if_neg (by simpa using h)]
    simp [h, eq_comm]

/-- There is a word where a piece has something else than blanks. -/
theorem words_ne_nil_iff : words s ≠ [] ↔ ∃ piece ∈ Text.pieces ',' s, ¬ Text.isAllBlank piece := by
  rw [words, Ne, List.filter_eq_nil_iff]
  simp [Text.trim_eq_empty_iff]

/-- The options that a text lists, in order. -/
def entries (s : String) : List (String × String) := (Text.pieces ',' s).filterMap (Text.cut '=')

theorem cut_eq_some_iff_entryText {e : String × String} :
    Text.cut '=' s = some e ↔ s = entryText e ∧ '=' ∉ e.1.toList := by
  rw [Text.cut_eq_some_iff, ← String.toList_inj]
  simp [entryText]

theorem exists_cut_of_mem (h : '=' ∈ s.toList) : ∃ e, Text.cut '=' s = some e := by
  obtain ⟨k, v, hs, hk⟩ := List.eq_append_cons_of_mem h
  exact ⟨(String.ofList k, String.ofList v), Text.cut_eq_some_iff.2 (by simpa using ⟨hs, hk⟩)⟩

/-- Empty pieces are no options. -/
theorem entries_eq (s : String) :
    entries s = ((Text.pieces ',' s).filter (· ≠ "")).filterMap (Text.cut '=') := by
  have hempty : Text.cut '=' "" = none := Text.cut_eq_none (by simp)
  rw [entries, List.filterMap_filter]
  refine List.filterMap_congr fun piece _ => ?_
  by_cases hp : piece = ""
  · simp [hp, hempty]
  · simp [hp]

theorem readOptions_eq_ok_iff_entries {m : SortedMap String String} : readOptions s = .ok m ↔
    (∀ piece ∈ Text.pieces ',' s, piece ≠ "" → '=' ∈ piece.toList) ∧ m = .ofList (entries s) := by
  rw [readOptions_eq_ok_iff]
  constructor
  · rintro ⟨es, hpieces, hes, rfl⟩
    have hentries : entries s = es := by
      rw [entries_eq, hpieces, List.filterMap_map]
      have hcut : ∀ e ∈ es, (Text.cut '=' ∘ entryText) e = some e := fun e he =>
        cut_eq_some_iff_entryText.2 ⟨rfl, (hes e he).separator⟩
      rw [List.filterMap_congr hcut, List.filterMap_some]
    refine ⟨fun piece hp hne => ?_, by rw [hentries]⟩
    have hmem : piece ∈ es.map entryText := hpieces ▸ List.mem_filter.2 ⟨hp, by simpa using hne⟩
    obtain ⟨e, -, rfl⟩ := List.mem_map.1 hmem
    simp [entryText]
  · rintro ⟨hall, rfl⟩
    refine ⟨entries s, ?_, fun e he => ?_, rfl⟩
    · -- every piece that is not empty is cut, and put together again it is the piece
      rw [entries_eq, List.map_filterMap]
      refine Eq.symm ((List.filterMap_congr fun piece hp => ?_).trans (List.filterMap_some))
      obtain ⟨hmem, hne⟩ := List.mem_filter.1 hp
      obtain ⟨e, he⟩ := exists_cut_of_mem (hall piece hmem (by simpa using hne))
      rw [he, Option.map_some, (cut_eq_some_iff_entryText.1 he).1]
    · obtain ⟨piece, hp, he⟩ := List.mem_filterMap.1 he
      obtain ⟨rfl, hkey⟩ := cut_eq_some_iff_entryText.1 he
      obtain ⟨hk, hv⟩ := comma_notMem_entryText.1 (Text.notMem_of_mem_pieces hp)
      exact ⟨hkey, hk, hv⟩

end Values

section Lone
variable {α : Type} {read : String → Except SpecError α} {texts : List String}

/-- There is something to be read where there is at most one text and it can be read. -/
theorem exists_lone_iff : (∃ p, Lone read texts p) ↔
    texts.length ≤ 1 ∧ ∀ s ∈ texts, ∃ x, read s = .ok x := by
  constructor
  · rintro ⟨_, h⟩
    cases h with
    | nothing => simp
    | text h => simpa using ⟨_, h⟩
  · rintro ⟨hlen, hread⟩
    match texts, hlen with
    | [], _ => exact ⟨none, .nothing⟩
    | [s], _ =>
      obtain ⟨x, hx⟩ := hread s List.mem_cons_self
      exact ⟨some x, .text hx⟩

theorem Lone.split {p : Option α} (h : Lone read texts p) :
    texts = [] ∧ p = none ∨ ∃ s x, texts = [s] ∧ read s = .ok x ∧ p = some x := by
  cases h with
  | nothing => exact .inl ⟨rfl, rfl⟩
  | text h => exact .inr ⟨_, _, rfl, h, rfl⟩

theorem Lone.of_mem {p : Option α} {s : String} (h : Lone read texts p) (hs : s ∈ texts) :
    ∃ x, read s = .ok x ∧ p = some x := by
  rcases h.split with ⟨rfl, -⟩ | ⟨_, x, rfl, hx, hp⟩
  · cases hs
  · exact ⟨x, List.mem_singleton.1 hs ▸ hx, hp⟩

end Lone

/-- Fields that make a request, in any order. -/
structure Accepted (fs : List String) : Prop where
  /-- A field has one of the keys before its first equals sign, or it has none and is a bare count. -/
  known : ∀ f ∈ fs, (told f).1 ∈ keys
  once : ∀ key ∈ keys, (values key fs).length ≤ 1
  counts : ∀ s ∈ values "count" fs, ∃ n, Counts s n
  devices : ∀ s ∈ values "device" fs, ∃ piece ∈ Text.pieces ',' s, ¬ Text.isAllBlank piece
  options : ∀ s ∈ values "options" fs, ∀ piece ∈ Text.pieces ',' s, piece ≠ "" → '=' ∈ piece.toList
  /-- Beside a list of devices no other number than zero is given. -/
  apart : values "device" fs ≠ [] → ∀ s ∈ values "count" fs, Counts s 0

/-- The number of devices that fields ask for. -/
inductive Numbers (fs : List String) : Int64 → Prop where
  | listed (device : values "device" fs ≠ []) : Numbers fs 0
  | counted {s : String} {n : Int64} (device : values "device" fs = []) (count : s ∈ values "count" fs)
      (counts : Counts s n) : Numbers fs n
  | single (device : values "device" fs = []) (count : values "count" fs = []) : Numbers fs 1

/-- What fields say of a request. -/
structure Makes (fs : List String) (d : Device) : Prop where
  driver : d.driver = (values "driver" fs).headD Device.defaultDriver
  ids : d.ids = (values "device" fs).flatMap words
  count : Numbers fs d.count
  /-- There is one list: the default one, or the words given, with the runtime's own capability at their end if it is
  not among them. -/
  capabilities : ∃ cs, d.capabilities = [cs] ∧ (values "capabilities" fs = [] → cs = Device.defaultCapabilities) ∧
    ∀ s ∈ values "capabilities" fs, Device.ownCapability ∈ words s ∧ cs = words s ∨
      Device.ownCapability ∉ words s ∧ cs = words s ++ [Device.ownCapability]
  /-- Of the options with one key the last counts. -/
  options : ∀ key, d.options.get? key = ((values "options" fs).flatMap entries).reverse.lookup key

section Told
variable (ht : Tells fs draft) (hf : Finishes draft d)
include ht hf

/-- Devices are listed only if no other number than zero is told. -/
theorem counts_zero_of_tells (hd : values "device" fs ≠ []) (hs : s ∈ values "count" fs) : Counts s 0 := by
  obtain ⟨n, hread, hcount⟩ := ht.count.of_mem hs
  rcases ht.ids.split with ⟨hnil, -⟩ | ⟨_, ids, -, -, hids⟩
  · exact absurd hnil hd
  have htotal := hf.total
  simp only [Draft.total, hids, hcount, Option.getD_some] at htotal
  split at htotal
  · next hn => exact readCount_eq_ok_iff.1 (hn ▸ hread)
  · cases htotal

theorem accepted_of_tells : Accepted fs where
  known := ht.known
  once := by
    intro key hkey
    simp only [keys, List.mem_cons, List.not_mem_nil, or_false] at hkey
    rcases hkey with rfl | rfl | rfl | rfl | rfl
    · exact (exists_lone_iff.1 ⟨_, ht.driver⟩).1
    · exact (exists_lone_iff.1 ⟨_, ht.count⟩).1
    · exact (exists_lone_iff.1 ⟨_, ht.ids⟩).1
    · exact (exists_lone_iff.1 ⟨_, ht.capabilities⟩).1
    · exact (exists_lone_iff.1 ⟨_, ht.options⟩).1
  counts s hs := by
    obtain ⟨n, hn, -⟩ := ht.count.of_mem hs
    exact ⟨n, readCount_eq_ok_iff.1 hn⟩
  devices s hs := by
    obtain ⟨_, hids, -⟩ := ht.ids.of_mem hs
    exact words_ne_nil_iff.1 (readIds_eq_ok_iff.1 hids).1
  options s hs := by
    obtain ⟨_, hm, -⟩ := ht.options.of_mem hs
    exact (readOptions_eq_ok_iff_entries.1 hm).1
  apart hd _ hs := counts_zero_of_tells ht hf hd hs

theorem numbers_of_tells : Numbers fs d.count := by
  have htotal := hf.total
  rcases ht.ids.split with ⟨hdevice, hids⟩ | ⟨_, ids, hdevice, -, hids⟩
  · simp only [Draft.total, hids, Except.ok.injEq] at htotal
    rcases ht.count.split with ⟨hcount, hn⟩ | ⟨s, n, hcount, hread, hn⟩
    · rw [hn, Option.getD_none] at htotal
      exact htotal ▸ .single hdevice hcount
    · rw [hn, Option.getD_some] at htotal
      exact .counted hdevice (by simp [hcount]) (readCount_eq_ok_iff.1 (htotal ▸ hread))
  · simp only [Draft.total, hids] at htotal
    split at htotal
    · exact (Except.ok.inj htotal) ▸ .listed (by simp [hdevice])
    · cases htotal

theorem makes_of_tells : Makes fs d where
  driver := by
    rw [hf.driver]
    rcases ht.driver.split with ⟨hv, hp⟩ | ⟨s, _, hv, ⟨⟩, hp⟩ <;> rw [hv, hp] <;> rfl
  ids := by
    rw [hf.ids]
    rcases ht.ids.split with ⟨hv, hp⟩ | ⟨s, ids, hv, hread, hp⟩ <;> rw [hv, hp]
    · rfl
    · simpa using (readIds_eq_ok_iff.1 hread).2
  count := numbers_of_tells ht hf
  capabilities := by
    refine ⟨_, hf.capabilities, ?_⟩
    rcases ht.capabilities.split with ⟨hv, hp⟩ | ⟨s, _, hv, ⟨⟩, hp⟩ <;> rw [hv, hp]
    · simp
    · refine ⟨nofun, fun t hs => ?_⟩
      obtain rfl := List.mem_singleton.1 hs
      rw [Option.getD_some, readCapabilities]
      by_cases hown : Device.ownCapability ∈ words t
      · exact .inl ⟨hown, if_pos (List.contains_iff_mem.2 hown)⟩
      · exact .inr ⟨hown, if_neg (mt List.contains_iff_mem.1 hown)⟩
  options key := by
    rw [hf.options]
    rcases ht.options.split with ⟨hv, hp⟩ | ⟨s, m, hv, hread, hp⟩ <;> rw [hv, hp]
    · rfl
    · rw [Option.getD_some, (readOptions_eq_ok_iff_entries.1 hread).2, SortedMap.get?_ofList]
      simp

end Told

namespace Accepted

/-- Accepted fields tell every part, and what they tell can be finished. -/
theorem exists_tells (h : Accepted fs) : ∃ draft d, Tells fs draft ∧ Finishes draft d := by
  have once {key : String} (hkey : key ∈ keys) := h.once key hkey
  obtain ⟨driver, hdriver⟩ : ∃ p, Lone .ok (values "driver" fs) p :=
    exists_lone_iff.2 ⟨once (by decide), fun s _ => ⟨s, rfl⟩⟩
  obtain ⟨count, hcount⟩ : ∃ p, Lone readCount (values "count" fs) p := by
    refine exists_lone_iff.2 ⟨once (by decide), fun s hs => ?_⟩
    obtain ⟨n, hn⟩ := h.counts s hs
    exact ⟨n, readCount_eq_ok_iff.2 hn⟩
  obtain ⟨ids, hids⟩ : ∃ p, Lone readIds (values "device" fs) p := by
    refine exists_lone_iff.2 ⟨once (by decide), fun s hs => ⟨words s, ?_⟩⟩
    exact readIds_eq_ok_iff.2 ⟨words_ne_nil_iff.2 (h.devices s hs), rfl⟩
  obtain ⟨capabilities, hcapabilities⟩ :
      ∃ p, Lone (fun s => .ok (readCapabilities s)) (values "capabilities" fs) p :=
    exists_lone_iff.2 ⟨once (by decide), fun s _ => ⟨_, rfl⟩⟩
  obtain ⟨options, hoptions⟩ : ∃ p, Lone readOptions (values "options" fs) p :=
    exists_lone_iff.2 ⟨once (by decide), fun s hs =>
      ⟨_, readOptions_eq_ok_iff_entries.2 ⟨h.options s hs, rfl⟩⟩⟩
  let draft : Draft := { driver, count, ids, capabilities, options }
  obtain ⟨n, hn⟩ : ∃ n, draft.total = .ok n := by
    rcases hids.split with ⟨-, rfl⟩ | ⟨_, _, hdevice, -, rfl⟩
    · exact ⟨_, rfl⟩
    · refine ⟨0, if_pos ?_⟩
      rcases hcount.split with ⟨-, rfl⟩ | ⟨s, n, hs, hread, rfl⟩
      · rfl
      · have hzero : Counts s 0 := h.apart (by simp [hdevice]) s (by simp [hs])
        exact (readCount_eq_ok_iff.1 hread).unique hzero
  let made : Device :=
    { driver := driver.getD Device.defaultDriver
      count := n
      ids := ids.getD []
      capabilities := [capabilities.getD Device.defaultCapabilities]
      options := options.getD ∅ }
  exact ⟨draft, made, ⟨h.known, hdriver, hcount, hids, hcapabilities, hoptions⟩, hn, rfl, rfl, rfl, rfl⟩

theorem values_cases (h : Accepted fs) (hkey : key ∈ keys) :
    values key fs = [] ∨ ∃ s, values key fs = [s] := by
  rcases Nat.le_one_iff_eq_zero_or_eq_one.1 (h.once key hkey) with hlen | hlen
  · exact .inl (List.length_eq_zero_iff.1 hlen)
  · exact .inr (List.length_eq_one_iff.1 hlen)

theorem numbers_unique (h : Accepted fs) {n' : Int64} (hn : Numbers fs n) (hn' : Numbers fs n') : n = n' := by
  have hcount : values "count" fs = [] ∨ ∃ s, values "count" fs = [s] := h.values_cases (by decide)
  cases hn with
  | listed hd =>
    cases hn' with
    | listed _ => rfl
    | counted hd' _ _ => exact absurd hd' hd
    | single hd' _ => exact absurd hd' hd
  | @counted s _ hd hs hc =>
    cases hn' with
    | listed hd' => exact absurd hd hd'
    | @counted s' _ _ hs' hc' =>
      rcases hcount with hnone | ⟨t, ht⟩
      · simp [hnone] at hs
      · rw [ht, List.mem_singleton] at hs hs'
        exact hc.unique (hs.trans hs'.symm ▸ hc')
    | single _ hnone => simp [hnone] at hs
  | single hd hnone =>
    cases hn' with
    | listed hd' => exact absurd hd hd'
    | counted _ hs' _ => simp [hnone] at hs'
    | single _ _ => rfl

/-- Accepted fields make one request only. -/
theorem makes_unique (h : Accepted fs) (hd : Makes fs d) (hd' : Makes fs d') : d = d' := by
  have hdriver : d.driver = d'.driver := hd.driver.trans hd'.driver.symm
  have hids : d.ids = d'.ids := hd.ids.trans hd'.ids.symm
  have hcount : d.count = d'.count := h.numbers_unique hd.count hd'.count
  have hoptions : d.options = d'.options :=
    SortedMap.ext_get? fun key => (hd.options key).trans (hd'.options key).symm
  have hcapabilities : d.capabilities = d'.capabilities := by
    obtain ⟨cs, hcs, hdefault, hgiven⟩ := hd.capabilities
    obtain ⟨cs', hcs', hdefault', hgiven'⟩ := hd'.capabilities
    rw [hcs, hcs']
    have hcases : values "capabilities" fs = [] ∨ ∃ s, values "capabilities" fs = [s] := h.values_cases (by decide)
    rcases hcases with hnone | ⟨s, hs⟩
    · rw [hdefault hnone, hdefault' hnone]
    · have hmem : s ∈ values "capabilities" fs := by simp [hs]
      rcases hgiven s hmem with ⟨hown, rfl⟩ | ⟨hown, rfl⟩ <;>
        rcases hgiven' s hmem with ⟨hown', rfl⟩ | ⟨hown', rfl⟩
      · rfl
      · exact absurd hown hown'
      · exact absurd hown' hown
      · rfl
  cases d
  cases d'
  simp_all

/-- In another order the fields tell the same. -/
theorem values_perm (h : Accepted fs) (hp : fs.Perm gs) (hkey : key ∈ keys) : values key gs = values key fs := by
  have hv : (values key fs).Perm (values key gs) := hp.filterMap _
  rcases h.values_cases hkey with hnone | ⟨s, hs⟩
  · rw [hnone] at hv ⊢
    exact hv.symm.eq_nil
  · rw [hs] at hv ⊢
    exact (List.singleton_perm.1 hv).symm

theorem perm (h : Accepted fs) (hp : fs.Perm gs) : Accepted gs := by
  have hcount : values "count" gs = values "count" fs := h.values_perm hp (by decide)
  have hdevice : values "device" gs = values "device" fs := h.values_perm hp (by decide)
  have hoptions : values "options" gs = values "options" fs := h.values_perm hp (by decide)
  constructor
  · exact fun f hf => h.known f (hp.mem_iff.2 hf)
  · intro key hkey
    rw [h.values_perm hp hkey]
    exact h.once key hkey
  · rw [hcount]
    exact h.counts
  · rw [hdevice]
    exact h.devices
  · rw [hoptions]
    exact h.options
  · rw [hcount, hdevice]
    exact h.apart

end Accepted

theorem Numbers.of_values (hcount : values "count" gs = values "count" fs)
    (hdevice : values "device" gs = values "device" fs) (h : Numbers fs n) : Numbers gs n := by
  cases h with
  | listed hd => exact .listed (hdevice ▸ hd)
  | counted hd hs hc => exact .counted (hdevice ▸ hd) (hcount ▸ hs) hc
  | single hd hc => exact .single (hdevice ▸ hd) (hcount ▸ hc)

theorem Makes.perm (h : Accepted fs) (hm : Makes fs d) (hp : fs.Perm gs) : Makes gs d := by
  have same {key : String} (hkey : key ∈ keys) : values key gs = values key fs := h.values_perm hp hkey
  constructor
  · rw [same (by decide)]
    exact hm.driver
  · rw [same (by decide)]
    exact hm.ids
  · exact hm.count.of_values (same (by decide)) (same (by decide))
  · rw [same (by decide)]
    exact hm.capabilities
  · rw [same (by decide)]
    exact hm.options

/-- A specification gives the one request that its fields make, provided there are fields and they are accepted. -/
theorem read_eq_ok_iff_makes {spec : String} : read spec = .ok d ↔
    ∃ fs, Text.Record.split (Text.trim spec) = .ok fs ∧ fs ≠ [] ∧ Accepted fs ∧ Makes fs d := by
  have hfields {fs : List String} : Spec.fields spec = .ok fs ↔ Text.Record.split (Text.trim spec) = .ok fs := by
    unfold Spec.fields
    cases Text.Record.split (Text.trim spec) <;> simp
  rw [read_eq_ok_iff]
  constructor
  · rintro ⟨fs, draft, hfs, hne, ht, hf⟩
    exact ⟨fs, hfields.1 hfs, hne, accepted_of_tells ht hf, makes_of_tells ht hf⟩
  · rintro ⟨fs, hfs, hne, ha, hm⟩
    obtain ⟨draft, made, ht, hf⟩ := ha.exists_tells
    obtain rfl : made = d := ha.makes_unique (makes_of_tells ht hf) hm
    exact ⟨fs, draft, hfields.2 hfs, hne, ht, hf⟩

/-- Fields in another order are accepted alike and make the same request. -/
theorem read_congr_of_perm {spec spec' : String} (hs : Text.Record.split (Text.trim spec) = .ok fs)
    (hs' : Text.Record.split (Text.trim spec') = .ok gs) (hp : fs.Perm gs) (h : read spec = .ok d) :
    read spec' = .ok d := by
  obtain ⟨fs', hfs', hne, ha, hm⟩ := read_eq_ok_iff_makes.1 h
  obtain rfl : fs = fs' := Except.ok.inj (hs.symm.trans hfs')
  refine read_eq_ok_iff_makes.2 ⟨gs, hs', ?_, ha.perm hp, hm.perm ha hp⟩
  rintro rfl
  exact hne hp.eq_nil

/-- A specification is read if it has fields and they are accepted; the request is the one that they make, and it does
not depend on their order. -/
theorem grammar_of_read (spec : String) :
    (∀ d, read spec = .ok d ↔
      ∃ fs, Text.Record.split (Text.trim spec) = .ok fs ∧ fs ≠ [] ∧ Accepted fs ∧ Makes fs d) ∧
      ((∃ d, read spec = .ok d) ↔
        ∃ fs, Text.Record.split (Text.trim spec) = .ok fs ∧ fs ≠ [] ∧ Accepted fs) ∧
      ∀ spec' fs gs, Text.Record.split (Text.trim spec) = .ok fs → Text.Record.split (Text.trim spec') = .ok gs →
        fs.Perm gs → ∀ d, read spec = .ok d ↔ read spec' = .ok d := by
  refine ⟨fun d => read_eq_ok_iff_makes, ⟨?_, ?_⟩, ?_⟩
  · rintro ⟨d, h⟩
    obtain ⟨fs, hfs, hne, ha, -⟩ := read_eq_ok_iff_makes.1 h
    exact ⟨fs, hfs, hne, ha⟩
  · rintro ⟨fs, hfs, hne, ha⟩
    obtain ⟨draft, d, ht, hf⟩ := ha.exists_tells
    exact ⟨d, read_eq_ok_iff_makes.2 ⟨fs, hfs, hne, ha, makes_of_tells ht hf⟩⟩
  · intro spec' fs gs hfs hgs hp d
    exact ⟨read_congr_of_perm hfs hgs hp, read_congr_of_perm hgs hfs hp.symm⟩

/-- A driver told after the count is the driver told before it, and a bare count is a count. -/
theorem grammar_of_read_turned_round :
    Text.Record.split (Text.trim " 2,driver=custom") = .ok ["2", "driver=custom"] ∧
      Text.Record.split (Text.trim "driver=custom,2") = .ok ["driver=custom", "2"] ∧
      ["2", "driver=custom"].Perm ["driver=custom", "2"] ∧
      (read " 2,driver=custom" = .ok { Device.ofCount 2 with driver := "custom" } ↔
        read "driver=custom,2" = .ok { Device.ofCount 2 with driver := "custom" }) ∧
      read "driver=custom,2" = .ok { Device.ofCount 2 with driver := "custom" } := by
  have hs : Text.Record.split (Text.trim " 2,driver=custom") = .ok ["2", "driver=custom"] := by decide +kernel
  have hs' : Text.Record.split (Text.trim "driver=custom,2") = .ok ["driver=custom", "2"] := by decide +kernel
  have hp : ["2", "driver=custom"].Perm ["driver=custom", "2"] := .swap ..
  have hsame := (grammar_of_read " 2,driver=custom").2.2 _ _ _ hs hs' hp { Device.ofCount 2 with driver := "custom" }
  exact ⟨hs, hs', hp, hsame, hsame.1 (by decide +kernel)⟩

end DevEnv.Gpu.Spec
