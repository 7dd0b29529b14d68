import DevEnv.Proofs.Gpu.Draft
import DevEnv.Proofs.Text.Record

/-! Requests for GPUs given back by their own text. The text says nothing of the runtime's own capability and of an
empty driver, runs the ids and the words together, and loses the blanks at the end of its last field. -/
namespace DevEnv.Gpu
open Spec Text.Record

/-- A request that its text gives back as it is. -/
structure Device.Canonical (d : Device) : Prop where
  /-- Either a list of devices, or a number of them. -/
  devices : d.ids ≠ [] ∧ d.count = 0 ∧ (∀ id ∈ d.ids, IsWord id) ∨ d.ids = [] ∧ -1 ≤ d.count
  driver : d.driver ≠ ""
  /-- One list, with the runtime's own capability at its end and others before it. -/
  capabilities : ∃ cs, cs ≠ [] ∧ d.capabilities = [cs ++ [ownCapability]] ∧ ∀ c ∈ cs, IsWord c ∧ c ≠ ownCapability
  options : ∀ e ∈ d.options.entries, IsEntry e
  /-- A single option is the bare end of the text, unless it has quotes. -/
  lastOption : ∀ e, d.options.entries = [e] → '"' ∉ e.1.toList → '"' ∉ e.2.toList →
    ∀ c, e.2.toList.getLast? = some c → Text.isBlank c = false

variable {d : Device}

namespace Device

/-- The capabilities that are written. -/
def named (d : Device) : List String := d.capabilities.flatten.filter (· ≠ ownCapability)

/-- The keys that are written after the selection of devices, with their values. -/
def keyed (d : Device) : List (String × String) :=
  (if d.driver = "" then [] else [("driver", d.driver)]) ++
    (if d.named.isEmpty then [] else [("capabilities", Text.join ',' d.named)]) ++
    if d.options.isEmpty then [] else [("options", Text.join ',' (d.options.entries.map entryText))]

theorem fields_eq (d : Device) : d.fields = d.selection :: d.keyed.map entryText := by
  have hmap {c : Prop} [Decidable c] (e : String × String) :
      (if c then [] else [e]).map entryText = if c then [] else [entryText e] := by split <;> rfl
  rw [keyed, List.map_append, List.map_append, hmap, hmap, hmap]
  rfl

theorem key_of_mem_keyed {e : String × String} (h : e ∈ d.keyed) : e.1 ∈ ["driver", "capabilities", "options"] := by
  unfold keyed at h
  simp only [List.mem_append] at h
  rcases h with (h | h) | h <;> split at h <;> simp_all

end Device

section Told

theorem told_entryText {key : String} (h : '=' ∉ key.toList) (s : String) : told (entryText (key, s)) = (key, s) := by
  have hcut : Text.cut '=' (entryText (key, s)) = some (key, s) := Text.cut_eq_some_iff.2 ⟨by simp [entryText], h⟩
  rw [told, hcut, Option.getD_some]

theorem told_bare {s : String} (h : '=' ∉ s.toList) : told s = ("count", s) := by
  rw [told, Text.cut_eq_none h, Option.getD_none]

theorem told_selection (d : Device) : told d.selection =
    if d.ids = [] then ("count", if d.count < 0 then "all" else Text.ofInt d.count.toInt)
    else ("device", Text.join ',' d.ids) := by
  unfold Device.selection
  by_cases hids : d.ids = []
  · simp only [hids, List.isEmpty_nil, if_true]
    split
    · exact told_bare (by decide)
    · have hkey : '=' ∉ "count".toList := by decide
      exact told_entryText hkey _
  · rw [if_neg (by simpa using hids), if_neg hids]
    have hkey : '=' ∉ "device".toList := by decide
    exact told_entryText hkey _

theorem map_told_fields (d : Device) : d.fields.map told = told d.selection :: d.keyed := by
  have hkeys : ∀ key ∈ ["driver", "capabilities", "options"], '=' ∉ key.toList := by decide
  rw [d.fields_eq, List.map_cons, List.map_map]
  refine congrArg _ ((List.map_congr_left fun e he => ?_).trans (List.map_id _))
  exact told_entryText (hkeys _ (Device.key_of_mem_keyed he)) e.2

theorem values_fields (key : String) (d : Device) : values key d.fields =
    (told d.selection :: d.keyed).filterMap fun e => if e.1 = key then some e.2 else none := by
  rw [← map_told_fields, List.filterMap_map]
  rfl

theorem values_driver (d : Device) : values "driver" d.fields = if d.driver = "" then [] else [d.driver] := by
  rw [values_fields, told_selection]
  unfold Device.keyed
  split_ifs <;> rfl

theorem values_count (d : Device) : values "count" d.fields =
    if d.ids = [] then [if d.count < 0 then "all" else Text.ofInt d.count.toInt] else [] := by
  rw [values_fields, told_selection]
  unfold Device.keyed
  split_ifs <;> rfl

theorem values_device (d : Device) :
    values "device" d.fields = if d.ids = [] then [] else [Text.join ',' d.ids] := by
  rw [values_fields, told_selection]
  unfold Device.keyed
  split_ifs <;> rfl

theorem values_capabilities (d : Device) :
    values "capabilities" d.fields = if d.named.isEmpty then [] else [Text.join ',' d.named] := by
  rw [values_fields, told_selection]
  unfold Device.keyed
  split_ifs <;> rfl

theorem values_options (d : Device) : values "options" d.fields =
    if d.options.isEmpty then [] else [Text.join ',' (d.options.entries.map entryText)] := by
  rw [values_fields, told_selection]
  unfold Device.keyed
  split_ifs <;> rfl

theorem known_of_mem_fields {f : String} (h : f ∈ d.fields) : (told f).1 ∈ keys := by
  have hmem : told f ∈ told d.selection :: d.keyed := map_told_fields d ▸ List.mem_map_of_mem h
  have hsub : ["driver", "capabilities", "options"] ⊆ keys := by decide
  rcases List.mem_cons.1 hmem with hf | hf
  · rw [hf, told_selection]
    split <;> simp [keys]
  · exact hsub (Device.key_of_mem_keyed hf)

end Told

section Settled

/-- A field as it is read from the end of a text. -/
def settledText (f : String) : String := String.ofList (settled f.toList)

theorem settledText_eq_self_iff {f : String} : settledText f = f ↔
    isSpecial f.toList = true ∨ ∀ c, f.toList.getLast? = some c → Text.isBlank c = false := by
  rw [← settled_eq_self_iff, settledText, ← String.toList_inj, String.toList_ofList]

theorem settledText_entryText (key value : String) :
    ∃ v, settledText (entryText (key, value)) = entryText (key, v) ∧ v.toList <+: value.toList := by
  by_cases h : isSpecial (entryText (key, value)).toList = true
  · exact ⟨value, settledText_eq_self_iff.2 (.inl h), List.prefix_refl _⟩
  · refine ⟨String.ofList (Text.trimBack value.toList), ?_, ?_⟩
    · have htext : (entryText (key, value)).toList = key.toList ++ '=' :: value.toList := by simp [entryText]
      rw [settledText, settled, if_neg h, htext, Text.trimBack_append_cons rfl, ← String.toList_inj]
      simp [entryText]
    · rw [String.toList_ofList]
      exact Text.isPrefix_trimBack _

/-- The blanks that a text loses at its end are no part of a key. -/
theorem told_settledText (f : String) : (told (settledText f)).1 = (told f).1 := by
  by_cases h : '=' ∈ f.toList
  · obtain ⟨key, value, hf, hkey⟩ := List.eq_append_cons_of_mem h
    obtain rfl : f = entryText (String.ofList key, String.ofList value) := by
      rw [← String.toList_inj, hf]
      simp [entryText]
    have hkey : '=' ∉ (String.ofList key).toList := by rwa [String.toList_ofList]
    obtain ⟨v, hv, -⟩ := settledText_entryText (String.ofList key) (String.ofList value)
    rw [hv, told_entryText hkey, told_entryText hkey]
  · have hsub : (settledText f).toList ⊆ f.toList := by
      rw [settledText, String.toList_ofList, settled]
      split
      · exact List.Subset.refl _
      · exact (Text.isPrefix_trimBack _).subset
    rw [told_bare h, told_bare fun hs => h (hsub hs)]

theorem values_settledText {key last : String} {front : List String} :
    values key (front ++ [settledText last]) = [] ↔ values key (front ++ [last]) = [] := by
  simp [values, List.filterMap_append, told_settledText]

end Settled

section Last

theorem begins_append {front : String} (h : Begins front.toList) (rest : String) : Begins (front ++ rest).toList := by
  obtain ⟨c, more, hc, hb⟩ := h
  exact ⟨c, more ++ rest.toList, by rw [String.toList_append, hc, List.cons_append], hb⟩

theorem begins_of_mem_fields {f : String} (h : f ∈ d.fields) : Begins f.toList := by
  rw [d.fields_eq] at h
  rcases List.mem_cons.1 h with rfl | h
  · unfold Device.selection
    split
    · split
      · exact ⟨_, _, rfl, rfl⟩
      · exact begins_append ⟨_, _, rfl, rfl⟩ _
    · exact begins_append ⟨_, _, rfl, rfl⟩ _
  · obtain ⟨⟨key, value⟩, he, rfl⟩ := List.mem_map.1 h
    have hkey := Device.key_of_mem_keyed he
    simp only [List.mem_cons, List.not_mem_nil, or_false] at hkey
    have hbegins : Begins key.toList := by
      rcases hkey with rfl | rfl | rfl <;> exact ⟨_, _, rfl, rfl⟩
    exact begins_append (begins_append hbegins _) _

theorem fields_render {front : List String} {last : String} (h : d.fields = front ++ [last]) :
    Spec.fields d.render = .ok (front ++ [settledText last]) := by
  have hbegins : ∀ f ∈ front ++ [last], Begins f.toList := fun f hf => begins_of_mem_fields (h ▸ hf)
  rw [Spec.fields, Device.render, h, split_trim_join_quote hbegins]
  rfl

/-- Words end as the last of them does. -/
theorem settledText_words {key : String} {ws : List String} (hne : ws ≠ []) (h : ∀ w ∈ ws, IsWord w) :
    settledText (entryText (key, Text.join ',' ws)) = entryText (key, Text.join ',' ws) := by
  refine settledText_eq_self_iff.2 (.inr fun c hc => ?_)
  rcases List.eq_nil_or_concat' ws with rfl | ⟨front, w, rfl⟩
  · exact absurd rfl hne
  have hw := h w (by simp)
  obtain ⟨pre, hpre⟩ := Text.suffix_joinChars ',' (front.map String.toList) w.toList
  have htext : (entryText (key, Text.join ',' (front ++ [w]))).toList = (key.toList ++ '=' :: pre) ++ w.toList := by
    simp [entryText, Text.join, ← hpre]
  rw [htext, List.getLast?_append_of_ne_nil _ (by simpa using hw.nonempty)] at hc
  exact hw.trimmed.last c hc

/-- A single option loses the blanks at its end, unless it has quotes. -/
theorem settledText_option_iff {key : String} (hkey : isSpecial key.toList = false) {e : String × String}
    (h : IsEntry e) : settledText (entryText (key, entryText e)) = entryText (key, entryText e) ↔
      ('"' ∈ e.1.toList ∨ '"' ∈ e.2.toList) ∨ ∀ c, e.2.toList.getLast? = some c → Text.isBlank c = false := by
  have htext : (entryText (key, entryText e)).toList = (key.toList ++ '=' :: (e.1.toList ++ ['='])) ++ e.2.toList := by
    simp [entryText]
  have hspecial : isSpecial (entryText (key, entryText e)).toList = true ↔ '"' ∈ e.1.toList ∨ '"' ∈ e.2.toList := by
    rw [htext, List.append_assoc, isSpecial_append hkey]
    simp [isSpecial, h.key, h.value]
  have hlast : (∀ c, (entryText (key, entryText e)).toList.getLast? = some c → Text.isBlank c = false) ↔
      ∀ c, e.2.toList.getLast? = some c → Text.isBlank c = false := by
    rw [htext, List.getLast?_append]
    cases e.2.toList.getLast? with
    | some c => rfl
    | none =>
      have hmark : (key.toList ++ '=' :: (e.1.toList ++ ['='])).getLast? = some '=' := by
        rw [List.append_cons, ← List.append_assoc, List.getLast?_concat]
      simp [hmark, Text.isBlank]
  rw [settledText_eq_self_iff, hspecial, hlast]

/-- Only a single option without quotes can lose anything at its end. -/
theorem settledText_options_iff {key : String} (hkey : isSpecial key.toList = false) {es : List (String × String)}
    (hne : es ≠ []) (h : ∀ e ∈ es, IsEntry e) :
    settledText (entryText (key, Text.join ',' (es.map entryText))) =
        entryText (key, Text.join ',' (es.map entryText)) ↔
      ∀ e, es = [e] → '"' ∉ e.1.toList → '"' ∉ e.2.toList →
        ∀ c, e.2.toList.getLast? = some c → Text.isBlank c = false := by
  cases es with
  | nil => exact absurd rfl hne
  | cons e more =>
    cases more with
    | cons next more =>
      -- a second option stands behind a comma
      have hcomma : ',' ∈ (entryText (key, Text.join ',' ((e :: next :: more).map entryText))).toList := by
        simp [entryText, Text.join, Text.joinChars]
      rw [settledText_eq_self_iff]
      exact ⟨fun _ => by simp, fun _ => .inl (isSpecial_iff.2 (.inl hcomma))⟩
    | nil =>
      have hone : Text.join ',' ([e].map entryText) = entryText e := by simp [Text.join, Text.joinChars]
      rw [hone, settledText_option_iff hkey (h e List.mem_cons_self)]
      constructor
      · intro hq e' he' h₁ h₂
        obtain rfl : e = e' := (List.cons.inj he').1
        exact hq.resolve_left (not_or.2 ⟨h₁, h₂⟩)
      · intro hall
        by_cases hq : '"' ∈ e.1.toList ∨ '"' ∈ e.2.toList
        · exact .inl hq
        · exact .inr (hall e rfl (not_or.1 hq).1 (not_or.1 hq).2)

/-- The last field is the options, or else the capabilities. -/
theorem exists_fields_options (h : d.options.entries ≠ []) : ∃ front,
    d.fields = front ++ [entryText ("options", Text.join ',' (d.options.entries.map entryText))] := by
  have hne : d.options.isEmpty = false := by simpa [SortedMap.isEmpty] using h
  rw [d.fields_eq, Device.keyed, hne, List.map_append, ← List.cons_append]
  exact ⟨_, rfl⟩

theorem exists_fields_capabilities (h : d.options.entries = []) (hn : d.named ≠ []) : ∃ front,
    d.fields = front ++ [entryText ("capabilities", Text.join ',' d.named)] := by
  have hempty : d.options.isEmpty = true := by simpa [SortedMap.isEmpty] using h
  have hne : d.named.isEmpty = false := by simpa using hn
  rw [d.fields_eq, Device.keyed, hempty, hne, if_pos rfl, List.append_nil, List.map_append, ← List.cons_append]
  exact ⟨_, rfl⟩

theorem last_eq {fs front : List String} {last x : String} (h : fs = front ++ [last])
    (hx : ∃ front', fs = front' ++ [x]) : last = x := by
  obtain ⟨front', h'⟩ := hx
  obtain ⟨-, hl⟩ := List.append_inj' (h.symm.trans h') rfl
  exact (List.cons.inj hl).1

end Last

section Necessary
variable {draft : Draft} {fs : List String}

private theorem devices_of_tells (ht : Tells fs draft) (hf : Finishes draft d) :
    d.ids ≠ [] ∧ d.count = 0 ∧ (∀ id ∈ d.ids, IsWord id) ∨ d.ids = [] ∧ -1 ≤ d.count := by
  have htotal := hf.total
  unfold Draft.total at htotal
  rw [hf.ids]
  cases hids : draft.ids with
  | some ids =>
    obtain ⟨s, -, hread⟩ := lone_some_iff.1 (hids ▸ ht.ids)
    obtain ⟨hne, hwords⟩ := of_readIds hread
    simp only [hids] at htotal
    split at htotal
    · exact .inl ⟨hne, (Except.ok.inj htotal).symm, hwords⟩
    · cases htotal
  | none =>
    simp only [hids] at htotal
    refine .inr ⟨rfl, ?_⟩
    rw [← Except.ok.inj htotal]
    cases hcount : draft.count with
    | none => decide
    | some n =>
      obtain ⟨s, -, hread⟩ := lone_some_iff.1 (hcount ▸ ht.count)
      exact neg_one_le_of_readCount hread

/-- A request that comes of a text with capabilities has a single list of them. -/
private theorem capabilities_of_tells (ht : Tells fs draft) (hf : Finishes draft d)
    (hne : values "capabilities" fs ≠ []) :
    ∃ s, values "capabilities" fs = [s] ∧ d.capabilities = [readCapabilities s] := by
  cases hc : draft.capabilities with
  | none => exact absurd (lone_none_iff.1 (hc ▸ ht.capabilities)) hne
  | some cs =>
    obtain ⟨s, hs, hread⟩ := lone_some_iff.1 (hc ▸ ht.capabilities)
    cases hread
    exact ⟨s, hs, by rw [hf.capabilities, hc, Option.getD_some]⟩

private theorem named_ne_nil {front : List String} {last : String} (h : d.fields = front ++ [last])
    (ht : Tells (front ++ [settledText last]) draft) (hf : Finishes draft d) : d.named ≠ [] := by
  intro hn
  have hvalues : values "capabilities" (front ++ [settledText last]) = [] := by
    rw [values_settledText, ← h, values_capabilities, hn]
    rfl
  have hnone : draft.capabilities = none := by
    have hl := ht.capabilities
    rwa [hvalues, lone_nil_iff] at hl
  rw [Device.named, hf.capabilities, hnone] at hn
  revert hn
  decide

private theorem isEntry_of_tells (ht : Tells fs draft) (hf : Finishes draft d) :
    ∀ e ∈ d.options.entries, IsEntry e := by
  rw [hf.options]
  cases ho : draft.options with
  | none => exact fun e he => absurd he List.not_mem_nil
  | some m =>
    obtain ⟨s, -, hread⟩ := lone_some_iff.1 (ho ▸ ht.options)
    exact isEntry_of_readOptions hread

private theorem driver_of_tells (ht : Tells d.fields draft) (hf : Finishes draft d) : d.driver ≠ "" := by
  intro hd
  have hnone : draft.driver = none := by
    have hl := ht.driver
    rwa [values_driver, if_pos hd, lone_nil_iff] at hl
  rw [hf.driver, hnone] at hd
  revert hd
  decide

/-- The options that a text gives back have lost nothing at its end. -/
private theorem settledText_options {front : List String} (hne : d.options.entries ≠ [])
    (ht : Tells (front ++ [settledText
      (entryText ("options", Text.join ',' (d.options.entries.map entryText)))]) draft) (hf : Finishes draft d) :
    settledText (entryText ("options", Text.join ',' (d.options.entries.map entryText))) =
      entryText ("options", Text.join ',' (d.options.entries.map entryText)) := by
  have hkey : '=' ∉ "options".toList := by decide
  obtain ⟨s, hs, hpre⟩ := settledText_entryText "options" (Text.join ',' (d.options.entries.map entryText))
  have hl := ht.options
  rw [hs] at hl
  obtain ⟨-, m, hread, hm⟩ := (lone_values_self (told_entryText hkey s)).1 hl
  have hread : readOptions s = .ok d.options := by rw [hread, hf.options, hm, Option.getD_some]
  by_cases hspecial : isSpecial (entryText
      ("options", Text.join ',' (d.options.entries.map entryText))).toList = true
  · exact settledText_eq_self_iff.2 (.inl hspecial)
  · have hcomma : ',' ∉ s.toList := fun hc => hspecial (isSpecial_iff.2 (.inl (by simp [entryText, hpre.subset hc])))
    obtain ⟨e, he, rfl⟩ := eq_entryText_of_readOptions hcomma hread hne
    rw [hs, he]
    simp [Text.join, Text.joinChars]

private theorem canonical_of_tells {front : List String} {last : String} (hfields : d.fields = front ++ [last])
    (ht : Tells (front ++ [settledText last]) draft) (hf : Finishes draft d) : d.Canonical := by
  have hnamed := named_ne_nil hfields ht hf
  have hvalues {f : String} (hkeys : values "capabilities" (front ++ [f]) = [] ↔ values "capabilities" d.fields = []) :
      values "capabilities" (front ++ [f]) ≠ [] := by
    rw [Ne, hkeys, values_capabilities]
    simpa using hnamed
  have hwords : ∀ w ∈ d.named, IsWord w ∧ w ≠ Device.ownCapability := by
    obtain ⟨s, -, hcaps⟩ := capabilities_of_tells ht hf (hvalues (hfields ▸ values_settledText))
    intro w hw
    obtain ⟨hmem, hne⟩ := List.mem_filter.1 hw
    rw [hcaps, List.flatten_singleton] at hmem
    have hne : w ≠ Device.ownCapability := by simpa using hne
    exact ⟨(of_mem_readCapabilities hmem).resolve_left hne, hne⟩
  have hlast : settledText last = last := by
    by_cases ho : d.options.entries = []
    · rw [last_eq hfields (exists_fields_capabilities ho hnamed)]
      exact settledText_words hnamed fun w hw => (hwords w hw).1
    · rw [last_eq hfields (exists_fields_options ho)] at ht ⊢
      exact settledText_options ho ht hf
  rw [hlast, ← hfields] at ht
  have hentries := isEntry_of_tells ht hf
  refine ⟨devices_of_tells ht hf, driver_of_tells ht hf, ⟨d.named, hnamed, ?_, hwords⟩, hentries, ?_⟩
  · obtain ⟨s, hs, hcaps⟩ := capabilities_of_tells ht hf (hfields ▸ hvalues (hfields ▸ Iff.rfl))
    rw [values_capabilities, if_neg (by simpa using hnamed)] at hs
    rw [hcaps, ← (List.cons.inj hs).1, readCapabilities_join hwords]
  · intro e he
    have ho : d.options.entries ≠ [] := by simp [he]
    rw [last_eq hfields (exists_fields_options ho)] at hlast
    exact (settledText_options_iff (by decide) ho hentries).1 hlast e he

end Necessary

section Sufficient

/-- The parts that the text of a request tells. -/
private def drafted (d : Device) (cs : List String) : Draft where
  driver := some d.driver
  count := if d.ids = [] then some d.count else none
  ids := if d.ids = [] then none else some d.ids
  capabilities := some (cs ++ [Device.ownCapability])
  options := if d.options.isEmpty then none else some d.options

private theorem readCount_selection (h : -1 ≤ d.count) :
    readCount (if d.count < 0 then "all" else Text.ofInt d.count.toInt) = .ok d.count := by
  split
  · next hneg =>
    have hone : d.count = -1 := by
      rw [← Int64.toInt_inj]
      have hle := Int64.le_iff_toInt_le.1 h
      have hlt := Int64.lt_iff_toInt_lt.1 hneg
      simp only [Int64.reduceToInt] at hle hlt ⊢
      omega
    rw [readCount_all, hone]
  · next hneg => exact readCount_ofInt hneg

private theorem tells_drafted (h : d.Canonical) {cs : List String} (hcs : cs ≠ []) (hnamed : d.named = cs)
    (hwords : ∀ c ∈ cs, IsWord c ∧ c ≠ Device.ownCapability) : Tells d.fields (drafted d cs) := by
  constructor
  · exact fun f => known_of_mem_fields
  · rw [values_driver, if_neg h.driver]
    exact .text rfl
  · rw [values_count, drafted]
    split
    · next hids =>
      have hcount : -1 ≤ d.count := (h.devices.resolve_left fun hd => hd.1 hids).2
      exact .text (readCount_selection hcount)
    · exact .nothing
  · rw [values_device, drafted]
    split
    · exact .nothing
    · next hids =>
      have hids := h.devices.resolve_right fun hd => hids hd.1
      exact .text (readIds_join hids.1 hids.2.2)
  · rw [values_capabilities, hnamed, if_neg (by simpa using hcs)]
    exact .text (congrArg Except.ok (readCapabilities_join hwords))
  · rw [values_options, drafted]
    split
    · exact .nothing
    · next ho => exact .text (readOptions_join (by simpa [SortedMap.isEmpty] using ho) h.options)

private theorem finishes_drafted (h : d.Canonical) {cs : List String}
    (hcs : d.capabilities = [cs ++ [Device.ownCapability]]) : Finishes (drafted d cs) d := by
  constructor
  · unfold Draft.total drafted
    rcases h.devices with ⟨hids, hcount, -⟩ | ⟨hids, -⟩
    · simp [hids, hcount]
    · simp [hids]
  · rfl
  · unfold drafted
    split
    · assumption
    · rfl
  · exact hcs
  · rw [drafted]
    by_cases ho : d.options.isEmpty = true
    · rw [if_pos ho]
      exact SortedMap.ext_entries (List.isEmpty_iff.1 ho)
    · rw [if_neg ho, Option.getD_some]

end Sufficient

/-- A request is given back by its text exactly if it is canonical. -/
theorem read_render_eq_ok_iff (d : Device) : Spec.read d.render = .ok d ↔ d.Canonical := by
  rw [read_eq_ok_iff]
  constructor
  · rintro ⟨fs, draft, hfs, -, ht, hf⟩
    rcases List.eq_nil_or_concat' d.fields with hnil | ⟨front, last, hfields⟩
    · rw [d.fields_eq] at hnil
      cases hnil
    · rw [fields_render hfields] at hfs
      cases hfs
      exact canonical_of_tells hfields ht hf
  · intro h
    obtain ⟨cs, hcs, hcaps, hwords⟩ := h.capabilities
    have hnamed : d.named = cs := by
      rw [Device.named, hcaps, List.flatten_singleton, List.filter_append]
      have hown : [Device.ownCapability].filter (· ≠ Device.ownCapability) = [] := rfl
      rw [hown, List.append_nil, List.filter_eq_self]
      exact fun c hc => by simpa using (hwords c hc).2
    obtain ⟨front, last, hfields, hlast⟩ : ∃ front last, d.fields = front ++ [last] ∧ settledText last = last := by
      by_cases ho : d.options.entries = []
      · obtain ⟨front, hfields⟩ := exists_fields_capabilities ho (hnamed ▸ hcs)
        exact ⟨front, _, hfields, settledText_words (hnamed ▸ hcs) fun w hw => (hwords w (hnamed ▸ hw)).1⟩
      · obtain ⟨front, hfields⟩ := exists_fields_options ho
        exact ⟨front, _, hfields, (settledText_options_iff (by decide) ho h.options).2 h.lastOption⟩
    refine ⟨d.fields, drafted d cs, ?_, ?_, tells_drafted h hcs hnamed hwords, finishes_drafted h hcaps⟩
    · rw [fields_render hfields, hlast, hfields]
    · simp [hfields]

end DevEnv.Gpu
