import Mathlib.Data.List.DropRight
import DevEnv.Text.Blank

/-! Texts without blanks at their ends. They are those that trimming leaves alone, and trimming comes to one of them. -/
namespace DevEnv.Text

/-- The text neither begins nor ends with a blank. -/
structure Trimmed (s : String) : Prop where
  head : ∀ c, s.toList.head? = some c → isBlank c = false
  last : ∀ c, s.toList.getLast? = some c → isBlank c = false

variable {cs : List Char}

theorem trimFront_eq_self_iff : trimFront cs = cs ↔ ∀ c, cs.head? = some c → isBlank c = false := by
  cases cs <;> simp [trimFront]

theorem trimBack_eq_self_iff : trimBack cs = cs ↔ ∀ c, cs.getLast? = some c → isBlank c = false := by
  change cs.rdropWhile isBlank = cs ↔ _
  rw [List.rdropWhile_eq_self_iff]
  cases cs using List.reverseRecOn <;> simp

theorem isPrefix_trimBack (cs : List Char) : trimBack cs <+: cs := List.rdropWhile_prefix isBlank cs

/-- Trimming at the end goes no further than to a character that is no blank. -/
theorem trimBack_append_cons {c : Char} (h : isBlank c = false) (front rest : List Char) :
    trimBack (front ++ c :: rest) = front ++ c :: trimBack rest := by
  have hstop : (c :: front.reverse).dropWhile isBlank = c :: front.reverse := List.dropWhile_cons_of_neg (by simp [h])
  rw [trimBack, List.reverse_append, List.reverse_cons, List.append_assoc, List.singleton_append,
    List.dropWhile_append, hstop]
  split
  · next he => simp [trimBack, List.isEmpty_iff.1 he]
  · simp [trimBack]

theorem trimChars_eq_self_iff : trimChars cs = cs ↔
    (∀ c, cs.head? = some c → isBlank c = false) ∧ ∀ c, cs.getLast? = some c → isBlank c = false := by
  rw [← trimFront_eq_self_iff, ← trimBack_eq_self_iff]
  constructor
  · intro h
    -- both ways of trimming shorten a text, so neither of them has taken anything away
    have hfront : trimFront cs = cs := by
      have hle := (isPrefix_trimBack (trimFront cs)).length_le
      rw [← trimChars, h] at hle
      exact (List.dropWhile_suffix isBlank).eq_of_length_le hle
    exact ⟨hfront, by rwa [trimChars, hfront] at h⟩
  · rintro ⟨hfront, hback⟩
    rw [trimChars, hfront, hback]

theorem trim_eq_self_iff {s : String} : trim s = s ↔ Trimmed s := by
  have h : trim s = s ↔ trimChars s.toList = s.toList := by
    rw [trim, ← String.toList_inj, String.toList_ofList]
  rw [h, trimChars_eq_self_iff]
  exact ⟨fun ⟨hh, hl⟩ => ⟨hh, hl⟩, fun ⟨hh, hl⟩ => ⟨hh, hl⟩⟩

/-- Nothing is left of a text by trimming if there is nothing but blanks in it. -/
theorem trim_eq_empty_iff {s : String} : trim s = "" ↔ isAllBlank s := by
  have hdrop : (∀ c ∈ trimFront s.toList, isBlank c) ↔ ∀ c ∈ s.toList, isBlank c := by
    refine ⟨fun h c hc => ?_, fun h c hc => h c ((List.dropWhile_suffix _).subset hc)⟩
    rw [← List.takeWhile_append_dropWhile (p := isBlank) (l := s.toList)] at hc
    rcases List.mem_append.1 hc with hc | hc
    · exact List.mem_takeWhile_imp hc
    · exact h c hc
  have hback : trimChars s.toList = [] ↔ ∀ c ∈ trimFront s.toList, isBlank c := List.rdropWhile_eq_nil_iff
  rw [isAllBlank, List.all_eq_true, ← hdrop, ← hback, trim, ← String.toList_inj]
  simp

theorem length_trim_le (s : String) : (trim s).length ≤ s.length := by
  rw [trim, String.length_ofList, ← String.length_toList]
  exact (isPrefix_trimBack _).length_le.trans (List.dropWhile_suffix _).length_le

theorem trimmed_trim (s : String) : Trimmed (trim s) := by
  have hfront : trimFront (trimFront s.toList) = trimFront s.toList := List.dropWhile_idempotent isBlank _
  have hback : trimBack (trimChars s.toList) = trimChars s.toList := List.rdropWhile_idempotent isBlank _
  constructor <;> intro c hc <;> rw [trim, String.toList_ofList] at hc
  · apply trimFront_eq_self_iff.1 hfront
    obtain ⟨rest, hrest⟩ := isPrefix_trimBack (trimFront s.toList)
    rw [← hrest, ← trimChars, List.head?_append, hc]
    rfl
  · exact trimBack_eq_self_iff.1 hback c hc

end DevEnv.Text
