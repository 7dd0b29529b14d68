import DevEnv.Gpu.Request
import DevEnv.Proofs.Gpu.Grammar
import DevEnv.Proofs.Gpu.RoundTrip

/-! The two forms in which GPUs are asked for. A container runtime is given the text of a request for devices, and
another control plane nothing but their number. Both are made from one request, and the first field of the text chooses
as many devices as the number says. -/
namespace DevEnv.Gpu

/-- The devices that the first field of a request chooses. -/
inductive Selection where
  | all
  | count (n : Nat)
  | devices (ids : List String)

namespace Selection
variable {s s' : Selection} {d : Device}

def field : Selection → String
  | all => "all"
  | count n => "count=" ++ Text.ofNat n
  | devices ids => "device=" ++ Text.join ',' ids

/-- The number of devices, below zero for all of them. -/
def tally : Selection → Int
  | all => -1
  | count n => n
  | devices ids => ids.length

/-- A list has devices, told apart by the commas between them. -/
def Proper : Selection → Prop
  | all | count _ => True
  | devices ids => ids ≠ [] ∧ ∀ id ∈ ids, Spec.IsWord id

/-- A field can be read in one way only. -/
theorem field_injective (h : s.Proper) (h' : s'.Proper) (heq : s.field = s'.field) : s = s' := by
  have hchars : s.field.toList = s'.field.toList := congrArg String.toList heq
  cases s with
  | all => cases s' <;> simp [field] at hchars ⊢
  | count n =>
    cases s' with
    | count n' =>
      have hdigits : Text.digits n = Text.digits n' := by simpa [field, Text.ofNat] using hchars
      have hvalue : some n = some n' := by rw [← Text.value?_digits n, hdigits, Text.value?_digits]
      exact congrArg count (Option.some.inj hvalue)
    | _ => simp [field] at hchars
  | devices ids =>
    cases s' with
    | devices ids' =>
      have hjoin : Text.join ',' ids = Text.join ',' ids' := by
        apply String.toList_inj.1
        simpa [field] using hchars
      have hids : ids = ids' := by rw [← Spec.words_join h.2, hjoin, Spec.words_join h'.2]
      exact congrArg devices hids
    | _ => simp [field] at hchars

/-- A selection stands in the first field of the text of a request. -/
structure Heads (s : Selection) (d : Device) : Prop where
  proper : s.Proper
  first : ∃ more, Text.Record.split d.render = .ok (s.field :: more)

theorem Heads.unique (h : s.Heads d) (h' : s'.Heads d) : s = s' := by
  obtain ⟨more, hs⟩ := h.first
  obtain ⟨more', hs'⟩ := h'.first
  have hfields : s.field :: more = s'.field :: more' := Except.ok.inj (hs.symm.trans hs')
  exact field_injective h.proper h'.proper (List.cons.inj hfields).1

end Selection

namespace Device
variable {d : Device}

theorem split_render (d : Device) : ∃ more, Text.Record.split d.render = .ok (d.selection :: more) := by
  have hnone : d.fields ≠ [] := by simp [d.fields_eq]
  have hempty : d.fields ≠ [""] := by
    intro h
    obtain ⟨c, rest, hc, -⟩ := begins_of_mem_fields (h ▸ List.mem_singleton_self "")
    cases hc
  refine ⟨d.keyed.map Spec.entryText, ?_⟩
  rw [render, Text.Record.split_join_quote hnone hempty, d.fields_eq]

/-- What a request chooses. -/
def chosen (d : Device) : Selection :=
  if d.ids = [] then if d.count < 0 then .all else .count d.count.toInt.toNat else .devices d.ids

theorem toInt_count_nonneg (h : ¬ d.count < 0) : 0 ≤ d.count.toInt := Int64.le_iff_toInt_le.1 (Int64.not_lt.1 h)

theorem selection_eq_field (d : Device) : d.selection = d.chosen.field := by
  unfold selection chosen
  by_cases hids : d.ids = []
  · simp only [hids, List.isEmpty_nil, if_true]
    split
    · rfl
    · next hneg =>
      have hle : 0 ≤ d.count.toInt := toInt_count_nonneg hneg
      have htext : Text.ofInt d.count.toInt = Text.ofNat d.count.toInt.toNat := by
        rw [Text.ofInt, Text.intChars, if_neg (Int.not_lt.2 hle), Text.ofNat]
        congr 2
        omega
      rw [Selection.field, htext]
  · rw [if_neg (by simpa using hids), if_neg hids]
    rfl

/-- Where devices are listed no number stands beside them, and the list can be taken apart again. -/
def Apart (d : Device) : Prop := d.ids ≠ [] → d.count = 0 ∧ ∀ id ∈ d.ids, Spec.IsWord id

theorem Apart.heads_chosen (h : d.Apart) : d.chosen.Heads d where
  proper := by
    unfold chosen
    split_ifs with hids
    · trivial
    · trivial
    · exact ⟨hids, (h hids).2⟩
  first := d.selection_eq_field ▸ d.split_render

theorem Apart.tally_eq (h : d.Apart) : Request.tally 0 [d] = .ofInt d.chosen.tally := by
  by_cases hids : d.ids = []
  · by_cases hneg : d.count < 0
    · simp [Request.tally, chosen, hids, hneg, Selection.tally]
    · have hle : 0 ≤ d.count.toInt := toInt_count_nonneg hneg
      have hchosen : d.chosen = .count d.count.toInt.toNat := by simp [chosen, hids, hneg]
      rw [hchosen, Selection.tally, Int.toNat_of_nonneg hle, Int64.ofInt_toInt]
      simp [Request.tally, hids, hneg]
  · have hzero : d.count = 0 := (h hids).1
    have hchosen : d.chosen = .devices d.ids := if_neg hids
    rw [hchosen, Selection.tally, Int64.ofInt_eq_ofNat]
    simp [Request.tally, hids, hzero]

theorem toInt_tally (h : d.ids.length ≤ Int64.maxValue.toInt) : (Int64.ofInt d.chosen.tally).toInt = d.chosen.tally := by
  unfold chosen
  split_ifs with hids hneg
  · rfl
  · have hle : 0 ≤ d.count.toInt := toInt_count_nonneg hneg
    rw [Selection.tally, Int.toNat_of_nonneg hle, Int64.ofInt_toInt]
  · have hmax : Int64.maxValue.toInt = 9223372036854775807 := rfl
    rw [Selection.tally]
    apply Int64.toInt_ofInt_of_le
    · omega
    · omega

end Device

namespace Spec
variable {d : Device} {text : String}

theorem apart_of_read (h : read text = .ok d) : d.Apart := by
  obtain ⟨fs, -, -, -, hm⟩ := read_eq_ok_iff_makes.1 h
  intro hids
  have hdevice : values "device" fs ≠ [] := by
    intro hnone
    exact hids (by rw [hm.ids, hnone, List.flatMap_nil])
  constructor
  · have hcount : Numbers fs d.count := hm.count
    generalize d.count = n at hcount
    cases hcount with
    | listed => rfl
    | counted hnone | single hnone => exact absurd hnone hdevice
  · intro id hid
    rw [hm.ids] at hid
    obtain ⟨s, -, hs⟩ := List.mem_flatMap.1 hid
    exact isWord_of_mem_words hs

theorem length_words_le (s : String) : (words s).length ≤ s.length + 1 := by
  have hfilter : (words s).length ≤ ((Text.pieces ',' s).map Text.trim).length := List.length_filter_le _ _
  rw [List.length_map] at hfilter
  exact hfilter.trans (Text.length_pieces_le ',' s)

/-- A value is shorter than the field that tells it, unless that is a bare count. -/
theorem length_lt_of_mem_values {key s : String} {fs : List String} (hs : s ∈ values key fs) (hkey : key ≠ "count") :
    ∃ f ∈ fs, s.length < f.length := by
  obtain ⟨f, hf, hvalue⟩ := List.mem_filterMap.1 hs
  refine ⟨f, hf, ?_⟩
  unfold told at hvalue
  cases hcut : Text.cut '=' f with
  | none =>
    rw [hcut, Option.getD_none, if_neg (Ne.symm hkey)] at hvalue
    cases hvalue
  | some e =>
    rw [hcut, Option.getD_some] at hvalue
    split at hvalue
    · cases hvalue
      have hlen : f.length = e.1.length + 1 + e.2.length := by
        rw [(cut_eq_some_iff_entryText.1 hcut).1, entryText, String.length_append, String.length_append]
        rfl
      omega
    · cases hvalue

/-- There are no more devices in a list than characters in its text. -/
theorem length_ids_le_of_read (h : read text = .ok d) : d.ids.length ≤ text.length := by
  obtain ⟨fs, hfs, -, ha, hm⟩ := read_eq_ok_iff_makes.1 h
  have hvalues : values "device" fs = [] ∨ ∃ s, values "device" fs = [s] := ha.values_cases (by decide)
  rcases hvalues with hnone | ⟨s, hs⟩
  · simp [hm.ids, hnone]
  · obtain ⟨f, hf, hlt⟩ := length_lt_of_mem_values (hs ▸ List.mem_singleton_self s) (by decide)
    have hids : d.ids = words s := by rw [hm.ids, hs, List.flatMap_singleton]
    calc d.ids.length
      _ ≤ s.length + 1 := hids ▸ length_words_le s
      _ ≤ f.length := hlt
      _ ≤ (Text.trim text).length := Text.Record.length_le_of_split hfs hf
      _ ≤ text.length := Text.length_trim_le text

end Spec

namespace Request
variable {r : Request} {ds : List Device} {d : Device}

/-- What a request comes to: nothing, or one record, made of a number or read from a text. -/
theorem devices_cases (h : r.devices = .ok ds) : ds = [] ∧ r.isEnabled = false ∨
    ∃ d, ds = [d] ∧ r.isEnabled = true ∧
      ((∃ n, r = count n ∧ d = .ofCount n) ∨ ∃ text, r = spec text ∧ Spec.read text = .ok d) := by
  cases r with
  | none =>
    cases h
    exact .inl ⟨rfl, rfl⟩
  | count n =>
    rw [devices, Except.ok.injEq] at h
    by_cases hn : n = 0
    · rw [if_pos hn] at h
      exact .inl ⟨h.symm, by simp [isEnabled, hn]⟩
    · rw [if_neg hn] at h
      exact .inr ⟨_, h.symm, by simp [isEnabled, hn], .inl ⟨n, rfl, rfl⟩⟩
  | spec text =>
    rw [devices] at h
    by_cases hblank : Text.isAllBlank text
    · rw [if_pos hblank] at h
      cases h
      exact .inl ⟨rfl, by simp [isEnabled, hblank]⟩
    · rw [if_neg hblank] at h
      cases hread : Spec.read text with
      | error e =>
        rw [hread] at h
        cases h
      | ok d =>
        rw [hread] at h
        cases h
        exact .inr ⟨d, rfl, by simp [isEnabled, hblank], .inr ⟨text, rfl, hread⟩⟩

theorem eq_singleton_of_mem (h : r.devices = .ok ds) (hd : d ∈ ds) : ds = [d] := by
  rcases devices_cases h with ⟨rfl, -⟩ | ⟨d', rfl, -⟩
  · cases hd
  · rw [List.mem_singleton.1 hd]

theorem devices_eq_nil_iff (h : r.devices = .ok ds) : ds = [] ↔ r.isEnabled = false := by
  rcases devices_cases h with ⟨rfl, hr⟩ | ⟨d, rfl, hr, -⟩ <;> simp [hr]

theorem made_of_devices (h : r.devices = .ok [d]) :
    (∃ n, r = count n ∧ d = .ofCount n) ∨ ∃ text, r = spec text ∧ Spec.read text = .ok d := by
  rcases devices_cases h with ⟨hnil, -⟩ | ⟨d', hone, -, hmade⟩
  · cases hnil
  · obtain rfl : d = d' := (List.cons.inj hone).1
    exact hmade

theorem apart_of_devices (h : r.devices = .ok [d]) : d.Apart := by
  rcases made_of_devices h with ⟨n, -, rfl⟩ | ⟨text, -, hread⟩
  · exact fun hids => absurd rfl hids
  · exact Spec.apart_of_read hread

/-- A request without a text of more characters than a machine can count. -/
def Addressable (r : Request) : Prop := ∀ text, r = spec text → text.length ≤ Int64.maxValue.toInt

theorem Addressable.length_ids_le (ha : r.Addressable) (h : r.devices = .ok [d]) :
    d.ids.length ≤ Int64.maxValue.toInt := by
  rcases made_of_devices h with ⟨n, -, rfl⟩ | ⟨text, hr, hread⟩
  · exact (by decide : (0 : Int) ≤ Int64.maxValue.toInt)
  · exact Int.le_trans (Int.ofNat_le.2 (Spec.length_ids_le_of_read hread)) (ha text hr)

/-- Both forms of a request fail alike. Otherwise there is at most one record, none exactly where no GPU is wanted, and
the number is that of the devices that the first field of the record chooses. -/
theorem total_of_devices (r : Request) :
    (∀ e, r.total = .error e ↔ r.devices = .error e) ∧
      ∀ ds, r.devices = .ok ds → ∃ n, r.total = .ok n ∧ ds.length ≤ 1 ∧ (ds = [] ↔ r.isEnabled = false) ∧
        (ds = [] → n = 0) ∧
        ∀ d ∈ ds, (∃! s : Selection, s.Heads d) ∧
          ∀ s : Selection, s.Heads d → n = .ofInt s.tally ∧ (r.Addressable → n.toInt = s.tally) := by
  refine ⟨fun e => ?_, fun ds hds => ⟨tally 0 ds, ?_, ?_, devices_eq_nil_iff hds, ?_, fun d hd => ?_⟩⟩
  · unfold total
    cases r.devices <;> simp [Except.map]
  · rw [total, hds]
    rfl
  · cases ds with
    | nil => exact Nat.zero_le 1
    | cons d more =>
      rw [eq_singleton_of_mem hds List.mem_cons_self]
      exact Nat.le_refl 1
  · rintro rfl
    rfl
  · obtain rfl := eq_singleton_of_mem hds hd
    have hapart : d.Apart := apart_of_devices hds
    have hheads : d.chosen.Heads d := hapart.heads_chosen
    refine ⟨⟨d.chosen, hheads, fun s hs => hs.unique hheads⟩, fun s hs => ?_⟩
    obtain rfl : s = d.chosen := hs.unique hheads
    refine ⟨hapart.tally_eq, fun ha => ?_⟩
    rw [hapart.tally_eq]
    exact Device.toInt_tally (ha.length_ids_le hds)

/-- Two listed devices are a number of two. -/
theorem total_of_devices_listed : ∃ d, (spec "\"device=0,1\"").devices = .ok [d] ∧
    (Selection.devices ["0", "1"]).Heads d ∧ (spec "\"device=0,1\"").total = .ok 2 := by
  have hdevices : (spec "\"device=0,1\"").devices = .ok [{ Device.ofCount 0 with ids := ["0", "1"] }] := by
    decide +kernel
  have hheads : (Selection.devices ["0", "1"]).Heads { Device.ofCount 0 with ids := ["0", "1"] } :=
    (apart_of_devices hdevices).heads_chosen
  obtain ⟨-, hok⟩ := total_of_devices (spec "\"device=0,1\"")
  obtain ⟨n, hn, -, -, -, hchosen⟩ := hok _ hdevices
  have htally : n = .ofInt 2 := ((hchosen _ (List.mem_singleton_self _)).2 _ hheads).1
  exact ⟨_, hdevices, hheads, by rw [hn, htally]; rfl⟩

end Request
end DevEnv.Gpu
