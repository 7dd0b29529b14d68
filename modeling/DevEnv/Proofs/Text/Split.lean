import DevEnv.Text.Split

/-! Pieces read back from what they were joined to. A text is cut at the first occurrence of a character,
so what stands before the cut is free of it. A mark of several characters is found where it first occurs, too. -/
namespace DevEnv.Text

section Pieces
variable {c : Char} {cs piece : List Char}

theorem piecesBy_of_notMem (h : c ∉ piece) : piecesBy (· = c) piece = [piece] := by
  induction piece with
  | nil => rfl
  | cons x piece ih =>
    have hx : x ≠ c := Ne.symm (List.ne_of_not_mem_cons h)
    simp [piecesBy, hx, ih (List.not_mem_of_not_mem_cons h)]

theorem piecesBy_append_cons (h : c ∉ piece) (rest : List Char) :
    piecesBy (· = c) (piece ++ c :: rest) = piece :: piecesBy (· = c) rest := by
  induction piece with
  | nil => simp [piecesBy]
  | cons x piece ih =>
    have hx : x ≠ c := Ne.symm (List.ne_of_not_mem_cons h)
    simp [piecesBy, hx, ih (List.not_mem_of_not_mem_cons h)]

theorem piecesBy_joinChars {ps : List (List Char)} (hn : ps ≠ []) (h : ∀ piece ∈ ps, c ∉ piece) :
    piecesBy (· = c) (joinChars c ps) = ps := by
  induction ps with
  | nil => exact absurd rfl hn
  | cons piece ps ih =>
    have hp : c ∉ piece := h piece List.mem_cons_self
    cases ps with
    | nil => exact piecesBy_of_notMem hp
    | cons next more =>
      rw [joinChars, piecesBy_append_cons hp, ih (List.cons_ne_nil _ _)]
      · intro q hq
        exact h q (List.mem_cons_of_mem _ hq)
      · exact List.cons_ne_nil _ _

theorem notMem_of_mem_piecesBy (h : piece ∈ piecesBy (· = c) cs) : c ∉ piece := by
  induction cs generalizing piece with
  | nil =>
    obtain rfl : piece = [] := by simpa [piecesBy] using h
    exact List.not_mem_nil
  | cons x cs ih =>
    rw [piecesBy] at h
    split at h
    · rcases List.mem_cons.1 h with rfl | h
      · exact List.not_mem_nil
      · exact ih h
    · next hx =>
      obtain ⟨first, more, hcs⟩ := List.exists_cons_of_ne_nil (piecesBy_ne_nil (· = c) cs)
      rw [hcs] at h ih
      rcases List.mem_cons.1 h with rfl | h
      · intro hc
        rcases List.mem_cons.1 hc with rfl | hc
        · simp at hx
        · exact ih List.mem_cons_self hc
      · exact ih (List.mem_cons_of_mem _ h)

/-- Pieces that are free of the separator are found again. -/
theorem pieces_join {ps : List String} (hn : ps ≠ []) (h : ∀ piece ∈ ps, c ∉ piece.toList) :
    pieces c (join c ps) = ps := by
  have hc : ∀ piece ∈ ps.map String.toList, c ∉ piece := by
    intro piece hp
    obtain ⟨s, hs, rfl⟩ := List.mem_map.1 hp
    exact h s hs
  rw [pieces, join, String.toList_ofList, piecesBy_joinChars (by simpa using hn) hc]
  simp

theorem notMem_of_mem_pieces {piece s : String} (h : piece ∈ pieces c s) : c ∉ piece.toList := by
  obtain ⟨cs, hcs, rfl⟩ := List.mem_map.1 h
  rw [String.toList_ofList]
  exact notMem_of_mem_piecesBy hcs

theorem length_piecesBy_le (p : Char → Bool) (cs : List Char) : (piecesBy p cs).length ≤ cs.length + 1 := by
  induction cs with
  | nil => exact Nat.le_refl 1
  | cons x cs ih =>
    rw [piecesBy]
    split
    · exact Nat.succ_le_succ ih
    · rw [List.length_modifyHead]
      exact Nat.le_succ_of_le ih

theorem length_pieces_le (c : Char) (s : String) : (pieces c s).length ≤ s.length + 1 := by
  rw [pieces, List.length_map, ← String.length_toList]
  exact length_piecesBy_le _ _

theorem joinChars_concat {ps : List (List Char)} (hn : ps ≠ []) (piece : List Char) :
    joinChars c (ps ++ [piece]) = joinChars c ps ++ c :: piece := by
  induction ps with
  | nil => exact absurd rfl hn
  | cons first ps ih =>
    cases ps with
    | nil => rfl
    | cons second ps =>
      change first ++ c :: joinChars c (second :: ps ++ [piece]) = _
      rw [ih (List.cons_ne_nil _ _)]
      simp [joinChars]

theorem suffix_joinChars (c : Char) (ps : List (List Char)) (piece : List Char) :
    piece <:+ joinChars c (ps ++ [piece]) := by
  cases ps with
  | nil => exact List.suffix_refl _
  | cons first more =>
    rw [joinChars_concat (List.cons_ne_nil _ _)]
    exact (List.suffix_cons c piece).trans (List.suffix_append _ _)

end Pieces

section Cut
variable {c : Char}

theorem cutChars_append_cons {key : List Char} (h : c ∉ key) (value : List Char) :
    cutChars c (key ++ c :: value) = some (key, value) := by
  induction key with
  | nil => simp [cutChars]
  | cons x key ih =>
    have hx : x ≠ c := Ne.symm (List.ne_of_not_mem_cons h)
    simp [cutChars, hx, ih (List.not_mem_of_not_mem_cons h)]

theorem eq_of_cutChars {cs key value : List Char} (h : cutChars c cs = some (key, value)) :
    cs = key ++ c :: value ∧ c ∉ key := by
  induction cs generalizing key with
  | nil => cases h
  | cons x cs ih =>
    rw [cutChars] at h
    split at h
    · next hx =>
      cases h
      exact ⟨congrArg (· :: value) hx, List.not_mem_nil⟩
    · next hx =>
      obtain ⟨⟨k, v⟩, hcut, heq⟩ := Option.map_eq_some_iff.1 h
      cases heq
      obtain ⟨rfl, hk⟩ := ih hcut
      exact ⟨rfl, List.not_mem_cons_of_ne_of_not_mem (Ne.symm hx) hk⟩

/-- A text is cut into what stands before the first occurrence of a character and what stands after it. -/
theorem cut_eq_some_iff {s key value : String} :
    cut c s = some (key, value) ↔ s.toList = key.toList ++ c :: value.toList ∧ c ∉ key.toList := by
  unfold cut
  constructor
  · intro h
    obtain ⟨⟨k, v⟩, hcut, heq⟩ := Option.map_eq_some_iff.1 h
    cases heq
    simpa using eq_of_cutChars hcut
  · rintro ⟨hs, hk⟩
    rw [hs, cutChars_append_cons hk]
    simp

theorem cut_eq_none {s : String} (h : c ∉ s.toList) : cut c s = none := by
  cases hcut : cut c s with
  | none => rfl
  | some entry =>
    obtain ⟨key, value⟩ := entry
    rw [(cut_eq_some_iff.1 hcut).1] at h
    exact absurd (List.mem_append_right _ List.mem_cons_self) h

end Cut

section Mark
variable {mark cs front behind : List Char}

/-- The first occurrence of a mark in a text, with what stands before it and behind it. -/
structure FirstAt (mark cs front behind : List Char) : Prop where
  split : cs = front ++ mark ++ behind
  first : ∀ front' behind', cs = front' ++ mark ++ behind' → front.length ≤ front'.length

theorem FirstAt.of_isPrefix (h : mark <+: cs) : FirstAt mark cs [] (cs.drop mark.length) := by
  obtain ⟨rest, rfl⟩ := h
  exact ⟨by simp, fun front' behind' _ => Nat.zero_le _⟩

theorem FirstAt.cons {x : Char} (hx : ¬ mark <+: x :: cs) (h : FirstAt mark cs front behind) :
    FirstAt mark (x :: cs) (x :: front) behind := by
  refine ⟨by rw [h.split]; rfl, fun front' behind' hsplit => ?_⟩
  cases front' with
  | nil => exact absurd ⟨behind', hsplit.symm⟩ hx
  | cons y front' =>
    have hrest : cs = front' ++ mark ++ behind' := (List.cons.inj hsplit).2
    exact Nat.succ_le_succ (h.first front' behind' hrest)

theorem FirstAt.tail {x : Char} (h : FirstAt mark (x :: cs) (x :: front) behind) :
    FirstAt mark cs front behind := by
  refine ⟨(List.cons.inj h.split).2, fun front' behind' hsplit => ?_⟩
  have hle := h.first (x :: front') behind' (by rw [hsplit]; rfl)
  exact Nat.le_of_succ_le_succ hle

/-- A mark that is found is found where it first occurs. -/
theorem afterChars_eq_some_iff : afterChars mark cs = some behind ↔ ∃ front, FirstAt mark cs front behind := by
  induction cs with
  | nil =>
    rw [afterChars]
    constructor
    · intro h
      split at h
      · next hm =>
        cases h
        exact ⟨[], by simpa using hm, fun _ _ _ => Nat.zero_le _⟩
      · cases h
    · rintro ⟨front, h⟩
      have hnil : front ++ mark ++ behind = [] := h.split.symm
      simp only [List.append_eq_nil_iff] at hnil
      simp [hnil]
  | cons x cs ih =>
    rw [afterChars]
    by_cases hp : mark <+: x :: cs
    · rw [if_pos (List.isPrefixOf_iff_prefix.2 hp), Option.some.injEq]
      constructor
      · rintro rfl
        exact ⟨[], .of_isPrefix hp⟩
      · rintro ⟨front, h⟩
        obtain ⟨rest, hrest⟩ := hp
        have hfront : front = [] := List.length_eq_zero_iff.1 (Nat.le_zero.1 (h.first [] rest hrest.symm))
        rw [h.split, hfront]
        simp
    · rw [if_neg (mt List.isPrefixOf_iff_prefix.1 hp), ih]
      constructor
      · rintro ⟨front, h⟩
        exact ⟨x :: front, h.cons hp⟩
      · rintro ⟨front, h⟩
        cases front with
        | nil => exact absurd ⟨behind, h.split.symm⟩ hp
        | cons y front =>
          obtain rfl : x = y := (List.cons.inj h.split).1
          exact ⟨front, h.tail⟩

/-- A mark is not found in a text that does not hold it. -/
theorem afterChars_eq_none_iff : afterChars mark cs = none ↔ ¬ mark <:+: cs := by
  induction cs with
  | nil => cases mark <;> simp [afterChars]
  | cons x cs ih =>
    rw [afterChars, List.infix_cons_iff]
    by_cases hp : mark <+: x :: cs
    · simp [hp]
    · simp [hp, ih]

/-- A mark does not begin in a text without its first character, so that the one behind such a text is the first. -/
theorem firstAt_of_notMem {c : Char} (h : c ∉ front) (mark behind : List Char) :
    FirstAt (c :: mark) (front ++ c :: mark ++ behind) front behind := by
  refine ⟨rfl, fun front' behind' hsplit => Nat.le_of_not_lt fun hlt => ?_⟩
  -- an earlier mark would begin inside the front
  have hget := congrArg (·[front'.length]?) hsplit
  simp only [List.append_assoc, List.getElem?_append_left hlt, List.getElem?_eq_getElem hlt,
    List.getElem?_append_right (Nat.le_refl _), Nat.sub_self, List.cons_append, List.getElem?_cons_zero,
    Option.some.injEq] at hget
  exact h (hget ▸ List.getElem_mem hlt)

end Mark

end DevEnv.Text
