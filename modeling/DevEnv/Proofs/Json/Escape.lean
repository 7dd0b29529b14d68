import DevEnv.Json.Reader

/-! Strings between their quotes. What is spelled there by the grammar is taken whole, up to the quote that closes it,
and every text has a spelling that is read back as the text. -/
namespace DevEnv.Json

/-- What may stand between the quotes of a string. -/
inductive Body : List Char → Prop where
  | nil : Body []
  | plain {c : Char} {rest : List Char} (quote : c ≠ '"') (backslash : c ≠ '\\') (control : 32 ≤ c.toNat)
      (h : Body rest) : Body (c :: rest)
  | letter {e : Char} {rest : List Char} (he : (escaped? e).isSome) (h : Body rest) : Body ('\\' :: e :: rest)
  | unit {a b c d : Char} {rest : List Char} (hu : (unit? a b c d).isSome) (h : Body rest) :
      Body ('\\' :: 'u' :: a :: b :: c :: d :: rest)

/-- What can be written for a character: itself, an escape of one letter, or one by its code unit. -/
inductive Spelled (c : Char) : List Char → Prop where
  | plain (quote : c ≠ '"') (backslash : c ≠ '\\') (control : 32 ≤ c.toNat) : Spelled c [c]
  | letter (e : Char) (h : escaped? e = some c) : Spelled c ['\\', e]
  | unit (a b : Char) (h : unit? '0' '0' a b = some c.toNat) (low : c.toNat < 32) :
      Spelled c ['\\', 'u', '0', '0', a, b]

theorem hexValue?_hexDigit {n : Nat} (h : n < 16) : hexValue? (hexDigit n) = some n := by
  revert n
  decide

theorem spelled_escapeChar (c : Char) : Spelled c (escapeChar c) := by
  have code {n : Nat} (h : c.toNat = n) : some (Char.ofNat n) = some c := by rw [← h, Char.ofNat_toNat]
  unfold escapeChar
  split
  · next h => exact h ▸ .letter '"' rfl
  split
  · next h => exact h ▸ .letter '\\' rfl
  split
  · next h => exact .letter 'b' (code h)
  split
  · next h => exact h ▸ .letter 'n' rfl
  split
  · next h => exact .letter 'f' (code h)
  split
  · next h => exact h ▸ .letter 'r' rfl
  split
  · next h => exact h ▸ .letter 't' rfl
  split
  · next h =>
    refine .unit _ _ ?_ h
    simp only [unit?, hexValue?_hexDigit (show c.toNat / 16 < 16 by omega),
      hexValue?_hexDigit (Nat.mod_lt c.toNat (show 0 < 16 by decide)), show hexValue? '0' = some 0 from rfl]
    congr 1
    omega
  · next hq hb _ _ _ _ _ hc => exact .plain hq hb (by omega)

variable {c : Char} {written rest : List Char}

private theorem ne_u_of_escaped? {e : Char} (h : escaped? e = some c) : e ≠ 'u' := by
  rintro rfl
  cases h

theorem unescape_spelled (h : Spelled c written) :
    unescape (written ++ rest) = (unescape rest).map (c :: ·) := by
  cases h with
  | plain _ hb _ =>
    rw [List.singleton_append, unescape]
    · rw [if_neg hb]
      cases unescape rest <;> rfl
    all_goals
      intros
      contradiction
  | letter e h =>
    rw [List.cons_append, List.singleton_append, unescape]
    · rw [h]
      cases unescape rest <;> rfl
    · intro _ _ _ _ _ he
      exact absurd he (ne_u_of_escaped? h)
  | unit a b h hlow =>
    have high : isHighHalf c.toNat = false := by
      simp only [isHighHalf, Bool.and_eq_false_iff, decide_eq_false_iff_not]
      omega
    have low : isLowHalf c.toNat = false := by
      simp only [isLowHalf, Bool.and_eq_false_iff, decide_eq_false_iff_not]
      omega
    simp only [List.cons_append, List.nil_append]
    rw [unescape, h]
    dsimp only [bind, Option.bind]
    rw [high, low, Char.ofNat_toNat]
    cases unescape rest <;> rfl

/-- The quote behind a body closes the string. -/
theorem Body.scanString (h : Body written) (rest : List Char) :
    scanString (written ++ '"' :: rest) = some (written, rest) := by
  induction h with
  | nil => rfl
  | plain hq hb hc _ ih =>
    rw [List.cons_append, Json.scanString, ih]
    · rw [if_neg]
      · rfl
      · simpa [hb] using hc
    all_goals
      intros
      contradiction
  | letter he _ ih =>
    rw [List.cons_append, List.cons_append, Json.scanString, ih]
    · rw [if_pos he]
      rfl
    · rintro _ _ _ _ _ rfl
      cases he
  | unit hu _ ih =>
    simp only [List.cons_append]
    rw [Json.scanString, if_pos hu, ih]
    rfl

theorem Spelled.body (h : Spelled c written) (hr : Body rest) : Body (written ++ rest) := by
  cases h with
  | plain hq hb hc => exact .plain hq hb hc hr
  | letter e h => exact .letter (Option.isSome_of_eq_some h) hr
  | unit a b h _ => exact .unit (Option.isSome_of_eq_some h) hr

theorem unescape_escape (s : List Char) : unescape (escape s) = some s := by
  induction s with
  | nil => rfl
  | cons c s ih =>
    rw [escape, List.flatMap_cons, unescape_spelled (spelled_escapeChar c), ← escape, ih]
    rfl

theorem body_escape (s : List Char) : Body (escape s) := by
  induction s with
  | nil => exact .nil
  | cons c s ih =>
    rw [escape, List.flatMap_cons]
    exact (spelled_escapeChar c).body ih

end DevEnv.Json
