import DevEnv.Proofs.Local.Lookup
import Mathlib.Data.Nat.Digits.Defs

/-! Images looked up by the names under which they are listed: tag, identifier and short identifier. A lookup takes
the first image with this library's mark that answers to the name, so images filed earlier decide what is found. -/
namespace DevEnv.Local
open DevEnv.Action
open DevEnv.Runtime (Memory)
open DevEnv.Runtime.Memory (Reachable)

variable {τ : Type} {host : (q : Host.Query) → τ → q.Answer × τ} {h : τ} {m : Memory} {i j : StoredImage}
  {name tag tag' : String} {v : Image}

/-- An image with this library's mark that is filed before a tag. -/
structure Earlier (m : Memory) (tag tag' : String) (j : StoredImage) : Prop where
  filed : m.images.get? tag' = some j
  owned : Label.isOwned j.labels = true
  before : tag' < tag

/-- The image that a lookup of a name takes. -/
structure First (m : Memory) (name tag : String) (i : StoredImage) : Prop where
  filed : m.images.get? tag = some i
  owned : Label.isOwned i.labels = true
  answers : i.answersTo name = true
  alone : ∀ tag' j, Earlier m tag tag' j → j.answersTo name = false

theorem find?_listImages_iff :
    (m.listImages ownFilter).find? (·.answersTo name) = some i ↔ ∃ tag, First m name tag i := by
  rw [Memory.listImages, SortedMap.values, List.find?_filter, List.find?_map, Option.map_eq_some_iff]
  constructor
  · rintro ⟨⟨tag, i⟩, hfind, rfl⟩
    obtain ⟨hmem, hpass, hnone⟩ := SortedMap.find?_entries_iff.1 hfind
    simp only [Function.comp, passes_ownFilter, decide_eq_true_eq] at hpass
    refine ⟨tag, SortedMap.get?_eq_some_iff.2 hmem, hpass.1, hpass.2, fun tag' j hj => ?_⟩
    have hfalse := hnone (tag', j) (SortedMap.get?_eq_some_iff.1 hj.filed) hj.before
    simpa [passes_ownFilter, hj.owned] using hfalse
  · rintro ⟨tag, hf⟩
    refine ⟨(tag, i), SortedMap.find?_entries_iff.2 ⟨SortedMap.get?_eq_some_iff.1 hf.filed, ?_, ?_⟩, rfl⟩
    · simp [passes_ownFilter, hf.owned, hf.answers]
    · rintro ⟨tag', j⟩ hmem hlt
      simp only [Function.comp, passes_ownFilter, decide_eq_false_iff_not, not_and, Bool.not_eq_true]
      exact fun ho => hf.alone tag' j ⟨SortedMap.get?_eq_some_iff.2 hmem, ho, hlt⟩

/-- Of the images that answer to a name there is a first one. -/
theorem exists_first (hi : m.images.get? tag = some i) (ho : Label.isOwned i.labels = true)
    (ha : i.answersTo name = true) : ∃ tag i, First m name tag i := by
  cases hfind : (m.listImages ownFilter).find? (·.answersTo name) with
  | some j => exact ⟨_, j, (find?_listImages_iff.1 hfind).choose_spec⟩
  | none =>
    have hmem : i ∈ m.listImages ownFilter := by
      refine List.mem_filter.2 ⟨SortedMap.mem_values.2 ⟨tag, hi⟩, ?_⟩
      rw [passes_ownFilter]
      exact ho
    exact absurd ha (List.find?_eq_none.1 hfind i hmem)

theorem First.ends_image (hf : First m name tag i) (host : (q : Host.Query) → τ → q.Answer × τ) (h : τ) :
    Ends (beside host) (image name) (h, m) ((Image.ofStored i).mapError .label) (h, m) := by
  have hstored : Ends (beside host) (storedImage name) (h, m) (.ok i) (h, m) :=
    ends_storedImage_ok.2 ⟨find?_listImages_iff.2 ⟨tag, hf⟩, rfl⟩
  exact ends_bind.2 (.inl ⟨_, _, hstored, ends_ofExcept.2 ⟨rfl, rfl⟩⟩)

theorem reference_of_ofStored (h : Image.ofStored i = .ok v) : v.reference = i.tags.head?.getD Image.untagged := by
  unfold Image.ofStored at h
  cases hr : Label.manifest i.labels with
  | error e =>
    rw [hr] at h
    cases h
  | ok recorded =>
    rw [hr] at h
    cases h
    rfl

/-- An image is listed under the tag that it is filed under. -/
theorem reference_eq (hm : Reachable m) (hi : m.images.get? tag = some i) (hv : Image.ofStored i = .ok v) :
    v.reference = tag := by
  rw [reference_of_ofStored hv, hm.tags_eq hi]
  rfl

/-- A name leads to an image that answers to it exactly if no image before it does. -/
theorem ends_image_iff (hm : Reachable m) (hi : m.images.get? tag = some i) (ho : Label.isOwned i.labels = true)
    (hv : Image.ofStored i = .ok v) (ha : i.answersTo name = true) :
    Ends (beside host) (image name) (h, m) (.ok v) (h, m) ↔
      ∀ tag' j, Earlier m tag tag' j → j.answersTo name = false := by
  constructor
  · intro he
    obtain ⟨j, _, hstored, hread⟩ := ends_bind_ok.1 he
    obtain ⟨hfind, rfl⟩ := ends_storedImage_ok.1 hstored
    obtain ⟨hj, -⟩ := ends_ofExcept_ok.1 hread
    obtain ⟨tag', hf⟩ := find?_listImages_iff.1 hfind
    obtain rfl : tag' = tag := (reference_eq hm hf.filed hj).symm.trans (reference_eq hm hi hv)
    exact hf.alone
  · intro halone
    have hends := (First.mk hi ho ha halone).ends_image host h
    rwa [hv] at hends

theorem answersTo_iff (hm : Reachable m) (hj : m.images.get? tag = some j) : j.answersTo name = true ↔
    tag = Image.tagged name ∨ tag = name ∨ j.id.text = name ∨ j.id.short = name := by
  simp [StoredImage.answersTo, hm.tags_eq hj, or_assoc]

section Names

theorem not_append_lt (s t : String) : ¬ s ++ t < s := by
  change ¬ (s ++ t).toList < s.toList
  rw [String.toList_append, List.not_lt]
  exact (List.prefix_append _ _).le

theorem not_tagged_lt (name : String) : ¬ Image.tagged name < name := by
  unfold Image.tagged
  dsimp only
  split
  · exact Std.lt_irrefl
  · exact not_append_lt _ _

/-- By its tag an image answers first unless the tag is an earlier image's identifier or the short form of it. -/
theorem answersTo_reference (hm : Reachable m) (hj : Earlier m tag tag' j) :
    j.answersTo tag = false ↔ j.id.text ≠ tag ∧ j.id.short ≠ tag := by
  have htag : tag' ≠ tag := fun he => Std.lt_irrefl (he ▸ hj.before)
  have htagged : tag' ≠ Image.tagged tag := fun he => not_tagged_lt tag (he ▸ hj.before)
  rw [← Bool.not_eq_true, answersTo_iff hm hj.filed]
  simp [htag, htagged]

theorem answersTo_id (hm : Reachable m) (hi : m.images.get? tag = some i) (hj : Earlier m tag tag' j) :
    j.answersTo i.id.text = false ↔ tag' ≠ i.id.text := by
  obtain ⟨n, -, hn⟩ := hm.catalogued.issued hi
  have htext : i.id.text = "sha256:" ++ Memory.hexId n := congrArg Identifier.text hn
  have hid : j.id.text ≠ i.id.text := by
    intro he
    obtain rfl := hm.catalogued.distinct hj.filed hi (congrArg Identifier.mk he)
    exact Std.lt_irrefl hj.before
  have hshort : j.id.short ≠ i.id.text := htext ▸ short_ne_hashed j.id n
  have htagged : Image.tagged i.id.text = i.id.text := htext ▸ tagged_hashed n
  rw [← Bool.not_eq_true, answersTo_iff hm hj.filed, htagged]
  simp [hid, hshort]

theorem short_hashed (n : Nat) :
    Identifier.short ⟨"sha256:" ++ Memory.hexId n⟩ = String.ofList ((Memory.hexId n).toList.take 12) := by
  have hmark : Identifier.hashMark.isPrefixOf ("sha256:".toList ++ (Memory.hexId n).toList) = true :=
    List.isPrefixOf_iff_prefix.2 (List.prefix_append _ _)
  simp only [Identifier.short, String.toList_append, hmark, if_true]
  exact congrArg (fun cs : List Char => String.ofList (cs.take 12)) List.drop_left

/-- A short identifier is no reference with a tag. -/
theorem tagged_short (n : Nat) :
    Image.tagged (Identifier.short ⟨"sha256:" ++ Memory.hexId n⟩) =
      Identifier.short ⟨"sha256:" ++ Memory.hexId n⟩ ++ ":latest" := by
  have hdigit {c : Char} (hc : ∀ d < 16, Nat.digitChar d ≠ c) :
      c ∉ (String.ofList ((Memory.hexId n).toList.take 12)).toList := by
    intro hmem
    rw [String.toList_ofList] at hmem
    obtain ⟨d, hd, rfl⟩ := Memory.digit_of_mem_hexId (List.mem_of_mem_take hmem)
    exact hc d hd rfl
  have hslash := hdigit (c := '/') (by decide)
  have hcolon := hdigit (c := ':') (by decide)
  have hat := hdigit (c := '@') (by decide)
  rw [short_hashed]
  simp only [Image.tagged, Text.piecesBy_of_notMem hslash, List.getLastD_cons, List.getLastD_nil, List.contains_eq_mem,
    hcolon, hat, decide_false, Bool.or_self, Bool.false_eq_true, if_false]

theorem answersTo_short (hm : Reachable m) (hi : m.images.get? tag = some i) (hj : Earlier m tag tag' j) :
    j.answersTo i.id.short = false ↔
      tag' ≠ i.id.short ∧ tag' ≠ i.id.short ++ ":latest" ∧ j.id.short ≠ i.id.short := by
  obtain ⟨n, -, hn⟩ := hm.catalogued.issued hi
  obtain ⟨n', -, hn'⟩ := hm.catalogued.issued hj.filed
  have htagged : Image.tagged i.id.short = i.id.short ++ ":latest" := by
    rw [hn]
    exact tagged_short n
  have hid : j.id.text ≠ i.id.short := by
    rw [hn']
    exact (short_ne_hashed _ _).symm
  rw [← Bool.not_eq_true, answersTo_iff hm hj.filed, htagged]
  simp only [not_or, hid, not_false_eq_true, true_and]
  exact and_left_comm

/-- Until very many objects have been made, all images have one short identifier. -/
theorem short_of_lt {n : Nat} (hn : n < 16 ^ 52) : Identifier.short ⟨"sha256:" ++ Memory.hexId n⟩ = "000000000000" := by
  have hlength : (Nat.toDigits 16 n).length ≤ 52 := Nat.toDigits_length 16 n 52 (Nat.zero_lt_succ 51) hn
  clear hn
  have hmin : min 12 (64 - (Nat.toDigits 16 n).length) = 12 := by omega
  have hzeros : 12 ≤ (List.replicate (64 - (Nat.toDigits 16 n).length) '0').length := by
    rw [List.length_replicate]
    omega
  rw [short_hashed, Memory.hexId, String.toList_ofList, List.take_append_of_le_length hzeros, List.take_replicate, hmin]
  rfl

end Names

/-- How an image is looked up by the names it is listed with. It is found exactly if no image with this library's mark
that is filed before it goes by the same name. -/
structure Lookups (host : (q : Host.Query) → τ → q.Answer × τ) (h : τ) (m : Memory) (v : Image) : Prop where
  reference : Ends (beside host) (image v.reference) (h, m) (.ok v) (h, m) ↔
    ∀ tag j, Earlier m v.reference tag j → j.id.text ≠ v.reference ∧ j.id.short ≠ v.reference
  id : Ends (beside host) (image v.id.text) (h, m) (.ok v) (h, m) ↔
    ∀ tag j, Earlier m v.reference tag j → tag ≠ v.id.text
  short : Ends (beside host) (image v.id.short) (h, m) (.ok v) (h, m) ↔
    ∀ tag j, Earlier m v.reference tag j →
      tag ≠ v.id.short ∧ tag ≠ v.id.short ++ ":latest" ∧ j.id.short ≠ v.id.short
  /-- Until very many objects have been made, only the first image is found by its short identifier. -/
  few : m.nextId ≤ 16 ^ 52 → (Ends (beside host) (image v.id.short) (h, m) (.ok v) (h, m) ↔
    ∀ tag j, ¬ Earlier m v.reference tag j)
  /-- Each name leads to some image, which is shown or whose labels are the error. -/
  taken : ∀ name ∈ [v.reference, v.id.text, v.id.short], ∃ tag i, First m name tag i ∧
    Ends (beside host) (image name) (h, m) ((Image.ofStored i).mapError .label) (h, m)

theorem lookups_of_ofStored (hm : Reachable m) (hi : m.images.get? tag = some i) (ho : Label.isOwned i.labels = true)
    (hv : Image.ofStored i = .ok v) : Lookups host h m v := by
  obtain rfl : v.reference = tag := reference_eq hm hi hv
  have hid : v.id = i.id := id_of_ofStored hv
  have hreference : i.answersTo v.reference = true := (answersTo_iff hm hi).2 (.inr (.inl rfl))
  have htext : i.answersTo i.id.text = true := (answersTo_iff hm hi).2 (.inr (.inr (.inl rfl)))
  have hshort : i.answersTo i.id.short = true := (answersTo_iff hm hi).2 (.inr (.inr (.inr rfl)))
  have short : Ends (beside host) (image i.id.short) (h, m) (.ok v) (h, m) ↔
      ∀ tag j, Earlier m v.reference tag j →
        tag ≠ i.id.short ∧ tag ≠ i.id.short ++ ":latest" ∧ j.id.short ≠ i.id.short :=
    (ends_image_iff hm hi ho hv hshort).trans
      (forall₂_congr fun _ _ => forall_congr' fun hj => answersTo_short hm hi hj)
  refine ⟨?_, ?_, ?_, ?_, ?_⟩
  · exact (ends_image_iff hm hi ho hv hreference).trans
      (forall₂_congr fun _ _ => forall_congr' fun hj => answersTo_reference hm hj)
  · rw [hid]
    exact (ends_image_iff hm hi ho hv htext).trans
      (forall₂_congr fun _ _ => forall_congr' fun hj => answersTo_id hm hi hj)
  · rw [hid]
    exact short
  · intro hfew
    rw [hid, short]
    refine forall₂_congr fun tag j => ⟨fun hnone hj => ?_, fun hnone hj => absurd hj hnone⟩
    -- both identifiers begin with zeros
    obtain ⟨n, hn, hin⟩ := hm.catalogued.issued hi
    obtain ⟨n', hn', hjn⟩ := hm.catalogued.issued hj.filed
    refine (hnone hj).2.2 ?_
    rw [hin, hjn, short_of_lt (Nat.lt_of_lt_of_le hn hfew), short_of_lt (Nat.lt_of_lt_of_le hn' hfew)]
  · rw [hid]
    intro name hname
    have ha : i.answersTo name = true := by
      simp only [List.mem_cons, List.not_mem_nil, or_false] at hname
      rcases hname with rfl | rfl | rfl
      · exact hreference
      · exact htext
      · exact hshort
    obtain ⟨tag, j, hf⟩ := exists_first hi ho ha
    exact ⟨tag, j, hf, hf.ends_image ..⟩

/-- Every image that is listed is looked up by its names as long as no image before it goes by them. -/
theorem images_looked_up (hm : Reachable m) (host : (q : Host.Query) → τ → q.Answer × τ) (h : τ) :
    ∃ vs, Ends (beside host) images (h, m) (.ok vs) (h, m) ∧ ∀ v ∈ vs, Lookups host h m v := by
  refine ⟨_, ends_bind_ok.2 ⟨_, _, ends_call.2 ⟨rfl, rfl⟩, ends_pure.2 ⟨rfl, rfl⟩⟩, fun v hmem => ?_⟩
  obtain ⟨i, hi, hv⟩ := List.mem_map.1 (mem_readable.1 hmem)
  obtain ⟨hvalue, hpass⟩ := List.mem_filter.1 hi
  obtain ⟨tag, hget⟩ := SortedMap.mem_values.1 hvalue
  exact lookups_of_ofStored hm hget (passes_ownFilter i.labels ▸ hpass) hv

/-- A runtime with an image whose labels cannot be read, and another one after it. -/
def maskedMemory : Memory :=
  (({} : Memory).addImage "broken:dev" (.ofList [(Label.vendorKey, Label.vendor), (Label.aptKey, "nonsense")])
    default).addImage "mnist:dev" (.ofList [(Label.vendorKey, Label.vendor)]) default

theorem reachable_maskedMemory : Reachable maskedMemory := .step (.step .empty (.addImage ..)) (.addImage ..)

theorem images_looked_up_masked : ∃ vs, Ends (beside stillHost) images ((), maskedMemory) (.ok vs) ((), maskedMemory) ∧
    ∀ v ∈ vs, Lookups stillHost () maskedMemory v :=
  images_looked_up reachable_maskedMemory stillHost ()

/-- By the short identifier of the only image that is listed, the labels of the other one are the answer. -/
theorem short_leads_astray : ∃ m v, Reachable m ∧ Ends (beside stillHost) images ((), m) (.ok [v]) ((), m) ∧
    Ends (beside stillHost) (image v.id.short) ((), m) (.error (.label (.malformed Label.aptKey))) ((), m) := by
  have hlisted : Ends (beside stillHost) images ((), maskedMemory) (.ok [_]) ((), maskedMemory) := rfl
  exact ⟨maskedMemory, _, reachable_maskedMemory, hlisted, rfl⟩

end DevEnv.Local
