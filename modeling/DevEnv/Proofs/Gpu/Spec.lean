import DevEnv.Gpu.Spec
import DevEnv.Proofs.SortedMap
import DevEnv.Proofs.Text.Blank
import DevEnv.Proofs.Text.Numeral
import DevEnv.Proofs.Text.Split

/-! Reading the values in a GPU specification: words, counts and options. What is read stays as it is when it
is written and read again. -/
namespace DevEnv.Gpu.Spec

section Words

/-- A text that stays as it is among words: it is not empty, has no comma and no blank at its ends. -/
structure IsWord (s : String) : Prop where
  nonempty : s ≠ ""
  comma : ',' ∉ s.toList
  trimmed : Text.Trimmed s

theorem words_join {ws : List String} (h : ∀ w ∈ ws, IsWord w) : words (Text.join ',' ws) = ws := by
  cases ws with
  | nil => decide
  | cons w ws =>
    have htrim : (w :: ws).map Text.trim = w :: ws := by
      rw [List.map_congr_left fun x hx => Text.trim_eq_self_iff.2 (h x hx).trimmed, List.map_id']
    rw [words, Text.pieces_join (List.cons_ne_nil _ _) fun x hx => (h x hx).comma, htrim, List.filter_eq_self]
    intro x hx
    simpa using (h x hx).nonempty

theorem isWord_of_mem_words {s w : String} (h : w ∈ words s) : IsWord w := by
  obtain ⟨hmem, hne⟩ := List.mem_filter.1 h
  obtain ⟨piece, hp, rfl⟩ := List.mem_map.1 hmem
  refine ⟨by simpa using hne, fun hc => ?_, Text.trimmed_trim piece⟩
  have hsub : (Text.trim piece).toList ⊆ piece.toList := by
    rw [Text.trim, String.toList_ofList]
    exact fun c hc => (List.dropWhile_suffix _).subset ((Text.isPrefix_trimBack _).subset hc)
  exact Text.notMem_of_mem_pieces hp (hsub hc)

theorem readIds_join {ids : List String} (hne : ids ≠ []) (h : ∀ w ∈ ids, IsWord w) :
    readIds (Text.join ',' ids) = .ok ids := by
  rw [readIds, words_join h, if_neg (by simpa using hne)]

theorem of_readIds {s : String} {ids : List String} (h : readIds s = .ok ids) :
    ids ≠ [] ∧ ∀ w ∈ ids, IsWord w := by
  unfold readIds at h
  split at h
  · cases h
  · next hne =>
    cases h
    exact ⟨by simpa using hne, fun _ => isWord_of_mem_words⟩

theorem readCapabilities_join {cs : List String} (h : ∀ w ∈ cs, IsWord w ∧ w ≠ Device.ownCapability) :
    readCapabilities (Text.join ',' cs) = cs ++ [Device.ownCapability] := by
  rw [readCapabilities, words_join fun w hw => (h w hw).1, if_neg]
  rw [List.contains_iff_mem]
  exact fun hmem => (h _ hmem).2 rfl

theorem of_mem_readCapabilities {s w : String} (h : w ∈ readCapabilities s) :
    w = Device.ownCapability ∨ IsWord w := by
  unfold readCapabilities at h
  split at h
  · exact .inr (isWord_of_mem_words h)
  · rcases List.mem_append.1 h with h | h
    · exact .inr (isWord_of_mem_words h)
    · exact .inl (List.mem_singleton.1 h)

end Words

section Counts

theorem neg_one_le_of_readCount {s : String} {n : Int64} (h : readCount s = .ok n) : -1 ≤ n := by
  unfold readCount at h
  split at h
  · cases h
    decide
  · split at h
    · split at h
      · cases h
      · next hn =>
        cases h
        exact Int64.le_trans (by decide) (Int64.not_lt.1 hn)
    · cases h

theorem readCount_all : readCount "all" = .ok (-1) := if_pos rfl

theorem readCount_ofInt {n : Int64} (h : ¬ n < 0) : readCount (Text.ofInt n.toInt) = .ok n := by
  have hall : Text.ofInt n.toInt ≠ "all" := by
    intro ha
    have hread := Text.readInt64?_ofInt n
    rw [ha] at hread
    revert hread
    have hnone : Text.readInt64? "all" = none := by decide
    rw [hnone]
    nofun
  rw [readCount, if_neg hall, Text.readInt64?_ofInt]
  exact if_neg h

end Counts

section Entries

/-- An option that stays as it is among options. -/
structure IsEntry (e : String × String) : Prop where
  separator : '=' ∉ e.1.toList
  key : ',' ∉ e.1.toList
  value : ',' ∉ e.2.toList

/-- An option as it is written. -/
def entryText (e : String × String) : String := e.1 ++ "=" ++ e.2

theorem entryText_ne_empty (e : String × String) : entryText e ≠ "" := by simp [entryText]

theorem comma_notMem_entryText {e : String × String} :
    ',' ∉ (entryText e).toList ↔ ',' ∉ e.1.toList ∧ ',' ∉ e.2.toList := by
  simp [entryText]

theorem readOption_eq_ok_iff {s : String} {e : String × String} :
    readOption s = .ok e ↔ s = entryText e ∧ '=' ∉ e.1.toList := by
  have hcut : readOption s = .ok e ↔ Text.cut '=' s = some (e.1, e.2) := by
    unfold readOption
    cases Text.cut '=' s <;> simp
  rw [hcut, Text.cut_eq_some_iff, ← String.toList_inj]
  simp [entryText]

theorem mapM_readOption_eq_ok_iff {ss : List String} {es : List (String × String)} :
    ss.mapM readOption = .ok es ↔ ss = es.map entryText ∧ ∀ e ∈ es, '=' ∉ e.1.toList := by
  induction ss generalizing es with
  | nil => cases es <;> simp [pure, Except.pure]
  | cons s ss ih =>
    have hcons : (s :: ss).mapM readOption = .ok es ↔
        ∃ e more, readOption s = .ok e ∧ ss.mapM readOption = .ok more ∧ es = e :: more := by
      rw [List.mapM_cons]
      cases readOption s with
      | error fault => simp [bind, Except.bind]
      | ok e => cases ss.mapM readOption <;> simp [bind, Except.bind, pure, Except.pure, eq_comm]
    rw [hcons]
    constructor
    · rintro ⟨e, more, he, hmore, rfl⟩
      obtain ⟨rfl, hkey⟩ := readOption_eq_ok_iff.1 he
      obtain ⟨rfl, hkeys⟩ := ih.1 hmore
      exact ⟨rfl, List.forall_mem_cons.2 ⟨hkey, hkeys⟩⟩
    · rintro ⟨hs, hes⟩
      obtain ⟨e, more, rfl, rfl, rfl⟩ := List.map_eq_cons_iff.1 hs.symm
      obtain ⟨hkey, hkeys⟩ := List.forall_mem_cons.1 hes
      exact ⟨e, more, readOption_eq_ok_iff.2 ⟨rfl, hkey⟩, ih.2 ⟨rfl, hkeys⟩, rfl⟩

theorem readOptions_eq_ok_iff {s : String} {m : SortedMap String String} :
    readOptions s = .ok m ↔ ∃ es : List (String × String), (Text.pieces ',' s).filter (· ≠ "") = es.map entryText ∧
      (∀ e ∈ es, IsEntry e) ∧ m = .ofList es := by
  have hmap : readOptions s = .ok m ↔
      ∃ es, ((Text.pieces ',' s).filter (· ≠ "")).mapM readOption = .ok es ∧ m = .ofList es := by
    unfold readOptions
    cases ((Text.pieces ',' s).filter (· ≠ "")).mapM readOption <;>
      simp [bind, Except.bind, pure, Except.pure, eq_comm]
  rw [hmap]
  refine exists_congr fun es => ?_
  rw [mapM_readOption_eq_ok_iff, and_assoc]
  refine and_congr_right fun hes => and_congr_left' ⟨fun hkey e he => ?_, fun hes e he => (hes e he).separator⟩
  have hpiece : entryText e ∈ Text.pieces ',' s :=
    (List.mem_filter.1 (hes ▸ List.mem_map_of_mem (f := entryText) he)).1
  obtain ⟨hk, hv⟩ := comma_notMem_entryText.1 (Text.notMem_of_mem_pieces hpiece)
  exact ⟨hkey e he, hk, hv⟩

theorem readOptions_join {m : SortedMap String String} (hne : m.entries ≠ []) (h : ∀ e ∈ m.entries, IsEntry e) :
    readOptions (Text.join ',' (m.entries.map entryText)) = .ok m := by
  have hcomma : ∀ s ∈ m.entries.map entryText, ',' ∉ s.toList := by
    intro s hs
    obtain ⟨e, he, rfl⟩ := List.mem_map.1 hs
    exact comma_notMem_entryText.2 ⟨(h e he).key, (h e he).value⟩
  refine readOptions_eq_ok_iff.2 ⟨m.entries, ?_, h, m.ofList_entries.symm⟩
  rw [Text.pieces_join (by simpa using hne) hcomma, List.filter_eq_self]
  intro s hs
  obtain ⟨e, -, rfl⟩ := List.mem_map.1 hs
  simpa using entryText_ne_empty e

theorem isEntry_of_readOptions {s : String} {m : SortedMap String String} (h : readOptions s = .ok m) :
    ∀ e ∈ m.entries, IsEntry e := by
  obtain ⟨es, -, hes, rfl⟩ := readOptions_eq_ok_iff.1 h
  exact fun e he => hes e (SortedMap.mem_of_mem_ofList he)

/-- Without a comma there is no second option, and nothing around the first one. -/
theorem eq_entryText_of_readOptions {s : String} {m : SortedMap String String} (hs : ',' ∉ s.toList)
    (h : readOptions s = .ok m) (hne : m.entries ≠ []) : ∃ e, m.entries = [e] ∧ s = entryText e := by
  obtain ⟨es, hpieces, -, rfl⟩ := readOptions_eq_ok_iff.1 h
  have hone : Text.pieces ',' s = [s] := by simp [Text.pieces, Text.piecesBy_of_notMem hs]
  have hsub : (es.map entryText).Sublist [s] := by
    rw [← hpieces, hone]
    exact List.filter_sublist
  cases es with
  | nil => exact absurd rfl hne
  | cons e es =>
    have hall : (e :: es).map entryText = [s] := hsub.eq_of_length_le (by simp)
    obtain ⟨he, hes⟩ := List.cons.inj hall
    obtain rfl := List.map_eq_nil_iff.1 hes
    exact ⟨e, rfl, he.symm⟩

end Entries
end DevEnv.Gpu.Spec
