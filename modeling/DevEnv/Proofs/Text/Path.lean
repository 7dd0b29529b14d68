import DevEnv.Proofs.Text.Split
import DevEnv.Text.Path

/-! Paths and their segments, the parts between slashes. The last segment that counts is the last part of a path,
unless it leads to the parent. -/
namespace DevEnv.Text

theorem intercalate_eq_joinChars (c : Char) (ps : List (List Char)) : [c].intercalate ps = joinChars c ps := by
  induction ps with
  | nil => rfl
  | cons piece ps ih =>
    cases ps with
    | nil => simp [joinChars]
    | cons next more =>
      rw [List.intercalate_cons_cons, ih, List.append_assoc, List.singleton_append]
      rfl

namespace Path

section Segments
variable {α : Type}

/-- The segments of a path: it consists of them and of the slashes between them. -/
structure Segmented (slash : α) (path : List α) (segments : List (List α)) : Prop where
  ne_nil : segments ≠ []
  slashless : ∀ s ∈ segments, slash ∉ s
  joined : [slash].intercalate segments = path

/-- The segments that count, those that are neither empty nor a single dot. -/
def counted [DecidableEq α] (dot : α) (segments : List (List α)) : List (List α) :=
  segments.filter fun s => s ≠ [] && s ≠ [dot]

/-- The last part of a path with these segments, unless it goes to the parent or there is none. -/
def lastPart [DecidableEq α] (dot : α) (segments : List (List α)) : Option (List α) :=
  (counted dot segments).getLast?.filter (· ≠ [dot, dot])

theorem exists_segmented [DecidableEq α] (slash : α) (path : List α) : ∃ segments, Segmented slash path segments := by
  induction path with
  | nil => exact ⟨[[]], by simp, by simp, by simp⟩
  | cons x path ih =>
    obtain ⟨segments, hne, hslash, rfl⟩ := ih
    by_cases hx : x = slash
    · refine ⟨[] :: segments, by simp, by simpa using hslash, ?_⟩
      obtain ⟨s, more, rfl⟩ := List.exists_cons_of_ne_nil hne
      simp [List.intercalate_cons_cons, hx]
    · obtain ⟨s, more, rfl⟩ := List.exists_cons_of_ne_nil hne
      refine ⟨(x :: s) :: more, by simp, by simpa [Ne.symm hx] using hslash, ?_⟩
      cases more <;> simp [List.intercalate_cons_cons]

theorem mem_counted [DecidableEq α] {dot : α} {ps : List (List α)} {s : List α} :
    s ∈ counted dot ps ↔ s ∈ ps ∧ s ≠ [] ∧ s ≠ [dot] := by
  simp [counted]

end Segments

variable {path s : List Char} {ps : List (List Char)}

/-- A path has its segments in one way only. -/
theorem segmented_iff : Segmented '/' path ps ↔ ps = piecesBy (· = '/') path := by
  constructor
  · intro h
    rw [← h.joined, intercalate_eq_joinChars, piecesBy_joinChars h.ne_nil h.slashless]
  · intro h
    subst h
    refine ⟨piecesBy_ne_nil _ _, ?_, ?_⟩
    · intro s hs
      exact notMem_of_mem_piecesBy hs
    · rw [intercalate_eq_joinChars, joinChars_piecesBy]

theorem lastChars_eq (h : Segmented '/' path ps) :
    lastChars path = lastPart '.' ps := by
  rw [segmented_iff.1 h]
  rfl

/-- The last part of a path is a segment of it, and not one of those that lead nowhere or to the parent. -/
theorem of_lastChars (h : lastChars path = some s) : '/' ∉ s ∧ s ≠ [] ∧ s ≠ ['.'] ∧ s ≠ ['.', '.'] := by
  rw [lastChars_eq (segmented_iff.2 rfl), lastPart, Option.filter_eq_some_iff] at h
  obtain ⟨hlast, hparent⟩ := h
  obtain ⟨hmem, hne, hdot⟩ := mem_counted.1 (List.mem_of_getLast? hlast)
  exact ⟨notMem_of_mem_piecesBy hmem, hne, hdot, by simpa using hparent⟩

/-- What can be the last part of a path is that of itself. -/
theorem lastChars_self (hslash : '/' ∉ s) (hne : s ≠ []) (hdot : s ≠ ['.']) (hparent : s ≠ ['.', '.']) :
    lastChars s = some s := by
  rw [lastChars, segments, piecesBy_of_notMem hslash]
  simp [hne, hdot, hparent]

end Path
end DevEnv.Text
