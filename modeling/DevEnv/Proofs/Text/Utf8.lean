import DevEnv.Proofs.Text.Path
import DevEnv.Text.Utf8

/-! Texts read from bytes, with a replacement for what is not UTF-8. A slash or a dot of the text is a byte of its own,
so that the segments of a path can be read one by one. What is UTF-8 throughout is read as it is. -/
namespace DevEnv.Text.Utf8

/-- A character other than NUL that is a single byte. -/
def Plain (c : Char) : Prop := 0 < c.toNat ∧ c.toNat < 128

instance (c : Char) : Decidable (Plain c) := inferInstanceAs (Decidable (_ ∧ _))

/-- The byte of a plain character. -/
def byte (c : Char) : UInt8 := UInt8.ofNat c.toNat

variable {c : Char} {b : UInt8} {st : Option Begun} {s : Begun}

theorem toNat_byte (h : Plain c) : (byte c).toNat = c.toNat := by
  have hc := h.2
  simp only [byte, UInt8.toNat_ofNat']
  omega

theorem not_plain_replacement : ¬ Plain replacement := by decide

/-- A number stands for its character, or for NUL if it has none. -/
theorem toNat_ofNat (n : Nat) : (Char.ofNat n).toNat = n ∨ 128 ≤ n ∧ (Char.ofNat n).toNat = 0 := by
  by_cases h : n.isValidChar
  · left
    rw [Char.ofNat, dif_pos h]
    rfl
  · right
    have hn : ¬ n < 0xD800 := fun hlt => h (.inl hlt)
    constructor
    · omega
    · simp [Char.ofNat, h, Char.toNat]

theorem not_plain_ofNat {n : Nat} (h : 128 ≤ n) : ¬ Plain (Char.ofNat n) := by
  intro hc
  obtain ⟨hpos, hlt⟩ := hc
  rcases toNat_ofNat n with hn | ⟨-, hn⟩ <;> omega

theorem byte_ofNat (h : b.toNat < 128) : byte (Char.ofNat b.toNat) = b := by
  rcases toNat_ofNat b.toNat with hn | ⟨hn, -⟩
  · rw [byte, hn, UInt8.ofNat_toNat]
  · omega

section Reads

/-- What was begun by more than its first byte cannot turn out to be a plain character. -/
structure Begun.Wide (s : Begun) : Prop where
  low : 128 ≤ s.low
  high : s.high < 192
  next : 2 ≤ s.value * 64 + (s.low - 128)
  last : s.missing = 1 → 2 ≤ s.value

def Wide (st : Option Begun) : Prop := ∀ s, st = some s → s.Wide

theorem wide_none : Wide none := nofun

theorem wide_some : Wide (some s) ↔ s.Wide := by
  simp [Wide]

theorem lead_of_lt (h : b.toNat < 128) : lead b = .whole (Char.ofNat b.toNat) := by
  simp [lead, h]

/-- A longer character is not begun with a byte that a single one would do for. -/
theorem lead_of_le (h : 128 ≤ b.toNat) : lead b = .stray ∨ ∃ s : Begun, s.Wide ∧ lead b = .begun s := by
  unfold lead
  simp only [Nat.not_lt.2 h, if_false]
  split
  · exact .inl rfl
  split
  · exact .inr ⟨_, ⟨by simp, by simp, by simp; omega, by simp; omega⟩, rfl⟩
  split
  · refine .inr ⟨_, ⟨?_, ?_, ?_, by simp⟩, rfl⟩ <;> dsimp only <;> split <;> omega
  split
  · refine .inr ⟨_, ⟨?_, ?_, ?_, by simp⟩, rfl⟩ <;> dsimp only <;> split <;> omega
  · exact .inl rfl

theorem Begun.Wide.goOn (h : s.Wide) (hlow : s.low ≤ b.toNat) (hhigh : b.toNat ≤ s.high) :
    (⟨s.value * 64 + b.toNat % 64, s.missing - 1, 0x80, 0xBF⟩ : Begun).Wide := by
  have hlow' := h.low
  have hhigh' := h.high
  have hnext := h.next
  exact ⟨by simp, by simp, by dsimp only; omega, by intro; dsimp only; omega⟩

/-- What is left of a character that nothing follows. -/
def flush : Option Begun → List Char
  | none => []
  | some _ => [replacement]

theorem decodeFrom_nil (st : Option Begun) : decodeFrom st [] = flush st := by
  cases st <;> rfl

/-- What a byte can do. A single one ends what was begun and is a character of its own, any other one does not
complete a plain character. -/
inductive Reads (st : Option Begun) (b : UInt8) : Prop where
  | single (hb : b.toNat < 128)
      (eq : ∀ rest, decodeFrom st (b :: rest) = flush st ++ Char.ofNat b.toNat :: decodeFrom none rest)
  | other (cs : List Char) (st' : Option Begun) (hb : 128 ≤ b.toNat) (chars : ∀ c ∈ cs, ¬ Plain c) (wide : Wide st')
      (going : cs = [] → st' ≠ none) (eq : ∀ rest, decodeFrom st (b :: rest) = cs ++ decodeFrom st' rest)

theorem reads_none (b : UInt8) : Reads none b := by
  rcases Nat.lt_or_ge b.toNat 128 with hb | hb
  · apply Reads.single hb
    intro rest
    simp [decodeFrom, lead_of_lt hb, flush]
  · rcases lead_of_le hb with h | ⟨s, hs, h⟩
    · refine .other [replacement] none hb (by simpa using not_plain_replacement) wide_none nofun ?_
      simp [decodeFrom, h]
    · refine .other [] (some s) hb nofun (wide_some.2 hs) nofun ?_
      simp [decodeFrom, h]

/-- A byte that does not go on with a character is read as if none had been begun, after the replacement. -/
theorem decodeFrom_of_not_in (h : ¬ (s.low ≤ b.toNat ∧ b.toNat ≤ s.high)) (rest : List UInt8) :
    decodeFrom (some s) (b :: rest) = replacement :: decodeFrom none (b :: rest) := by
  simp only [decodeFrom, Bool.and_eq_true, decide_eq_true_eq, h, if_false]

theorem reads (h : Wide st) (b : UInt8) : Reads st b := by
  cases st with
  | none => exact reads_none b
  | some s =>
    have hs := wide_some.1 h
    have hlow := hs.low
    have hhigh := hs.high
    by_cases hin : s.low ≤ b.toNat ∧ b.toNat ≤ s.high
    · by_cases hlast : s.missing = 1
      · have hvalue := hs.last hlast
        have hchar : ¬ Plain (Char.ofNat (s.value * 64 + b.toNat % 64)) := not_plain_ofNat (by omega)
        refine .other [Char.ofNat (s.value * 64 + b.toNat % 64)] none (by omega) (by simpa using hchar) wide_none
          nofun ?_
        simp [decodeFrom, hin, hlast]
      · refine .other [] _ (by omega) nofun (wide_some.2 (hs.goOn hin.1 hin.2)) nofun ?_
        simp [decodeFrom, hin, hlast]
    · have hends := decodeFrom_of_not_in hin
      cases reads_none b with
      | single hb eq =>
        apply Reads.single hb
        intro rest
        rw [hends, eq]
        rfl
      | other cs st' hb chars wide _ eq =>
        refine .other (replacement :: cs) st' hb ?_ wide nofun ?_
        · intro c hc
          rcases List.mem_cons.1 hc with rfl | hc
          · exact not_plain_replacement
          · exact chars c hc
        · intro rest
          rw [hends, eq]
          rfl

end Reads

section Plain
variable {bytes : List UInt8} {cs : List Char}

/-- A single byte cuts a text in two, wherever it stands. -/
theorem decodeFrom_append_single (h : Wide st) (bytes : List UInt8) (hb : b.toNat < 128) (rest : List UInt8) :
    decodeFrom st (bytes ++ b :: rest) = decodeFrom st bytes ++ Char.ofNat b.toNat :: decodeFrom none rest := by
  induction bytes generalizing st with
  | nil =>
    cases reads h b with
    | single _ eq => rw [List.nil_append, eq, decodeFrom_nil]
    | other _ _ hge => omega
  | cons a bytes ih =>
    cases reads h a with
    | single _ eq => rw [List.cons_append, eq, eq, ih wide_none, List.append_assoc, List.cons_append]
    | other _ _ _ _ wide _ eq => rw [List.cons_append, eq, eq, ih wide, List.append_assoc]

theorem not_plain_of_mem_flush (h : c ∈ flush st) : ¬ Plain c := by
  cases st with
  | none => cases h
  | some s =>
    obtain rfl := List.mem_singleton.1 h
    exact not_plain_replacement

/-- A plain character of a text is among its bytes. -/
theorem mem_of_plain (h : Wide st) (hc : Plain c) (hmem : c ∈ decodeFrom st bytes) : byte c ∈ bytes := by
  induction bytes generalizing st with
  | nil =>
    rw [decodeFrom_nil] at hmem
    exact absurd hc (not_plain_of_mem_flush hmem)
  | cons b bytes ih =>
    cases reads h b with
    | single hb eq =>
      rw [eq] at hmem
      rcases List.mem_append.1 hmem with hmem | hmem
      · exact absurd hc (not_plain_of_mem_flush hmem)
      rcases List.mem_cons.1 hmem with rfl | hmem
      · rw [byte_ofNat hb]
        exact List.mem_cons_self
      · exact List.mem_cons_of_mem b (ih wide_none hmem)
    | other cs st' _ chars wide _ eq =>
      rw [eq] at hmem
      rcases List.mem_append.1 hmem with hmem | hmem
      · exact absurd hc (chars c hmem)
      · exact List.mem_cons_of_mem b (ih wide hmem)

/-- What has been begun leaves something behind that is not plain. -/
theorem exists_not_plain (h : s.Wide) (bytes : List UInt8) : ∃ c ∈ decodeFrom (some s) bytes, ¬ Plain c := by
  induction bytes generalizing s with
  | nil => exact ⟨replacement, List.mem_singleton_self _, not_plain_replacement⟩
  | cons b bytes ih =>
    cases reads (wide_some.2 h) b with
    | single _ eq =>
      rw [eq]
      exact ⟨replacement, List.mem_cons_self, not_plain_replacement⟩
    | other cs st' _ chars wide going eq =>
      rw [eq]
      cases cs with
      | nil =>
        obtain ⟨t, rfl⟩ := Option.ne_none_iff_exists'.1 (going rfl)
        exact ih (wide t rfl)
      | cons c cs => exact ⟨c, List.mem_cons_self, chars c List.mem_cons_self⟩

/-- A text of plain characters has just their bytes. -/
theorem decodeFrom_eq_iff (h : ∀ c ∈ cs, Plain c) : decodeFrom none bytes = cs ↔ bytes = cs.map byte := by
  constructor
  · intro heq
    subst heq
    induction bytes with
    | nil => rfl
    | cons b bytes ih =>
      cases reads_none b with
      | single hb eq =>
        rw [eq, flush, List.nil_append, List.map_cons, byte_ofNat hb]
        rw [eq] at h
        exact congrArg (b :: ·) (ih fun c hc => h c (List.mem_cons_of_mem _ hc))
      | other cs st' _ chars wide going eq =>
        exfalso
        rw [eq] at h
        cases cs with
        | nil =>
          obtain ⟨t, rfl⟩ := Option.ne_none_iff_exists'.1 (going rfl)
          obtain ⟨c, hc, hplain⟩ := exists_not_plain (wide t rfl) bytes
          exact hplain (h c hc)
        | cons c cs => exact chars c List.mem_cons_self (h c List.mem_cons_self)
  · intro heq
    subst heq
    induction cs with
    | nil => rfl
    | cons c cs ih =>
      have hc := h c List.mem_cons_self
      have hb : (byte c).toNat < 128 := by
        rw [toNat_byte hc]
        exact hc.2
      rw [List.map_cons, decodeFrom, lead_of_lt hb, toNat_byte hc, Char.ofNat_toNat]
      exact congrArg (c :: ·) (ih fun d hd => h d (List.mem_cons_of_mem c hd))

end Plain

section Segments
variable {bytes : List UInt8} {ps : List (List UInt8)}

theorem decodeFrom_intercalate (b : UInt8) (hb : b.toNat < 128) (ps : List (List UInt8)) :
    decodeFrom none ([b].intercalate ps) = [Char.ofNat b.toNat].intercalate (ps.map (decodeFrom none)) := by
  induction ps with
  | nil => rfl
  | cons piece ps ih =>
    cases ps with
    | nil => simp
    | cons next more =>
      rw [List.intercalate_cons_cons, List.append_assoc, List.singleton_append,
        decodeFrom_append_single wide_none _ hb, ih]
      simp [List.intercalate_cons_cons]

/-- A path is read segment by segment. -/
theorem segmented_decodeFrom (h : Path.Segmented (byte '/') bytes ps) :
    Path.Segmented '/' (decodeFrom none bytes) (ps.map (decodeFrom none)) where
  ne_nil := by simpa using h.ne_nil
  slashless := by
    intro s hs hslash
    obtain ⟨piece, hpiece, rfl⟩ := List.mem_map.1 hs
    exact h.slashless piece hpiece (mem_of_plain wide_none (by decide) hslash)
  joined := by
    rw [← h.joined, decodeFrom_intercalate (byte '/') (by decide)]
    rfl

theorem plain_dot : Plain '.' := by decide

theorem counted_decodeFrom (ps : List (List UInt8)) :
    Path.counted '.' (ps.map (decodeFrom none)) = (Path.counted (byte '.') ps).map (decodeFrom none) := by
  have hnil (s : List UInt8) : decodeFrom none s = [] ↔ s = [] := decodeFrom_eq_iff nofun
  have hdot (s : List UInt8) : decodeFrom none s = ['.'] ↔ s = [byte '.'] :=
    decodeFrom_eq_iff (by simpa using plain_dot)
  rw [Path.counted, Path.counted, List.filter_map]
  simp only [Function.comp_def, hnil, hdot, ne_eq]

theorem lastChars_decodeFrom (h : Path.Segmented (byte '/') bytes ps) :
    Path.lastChars (decodeFrom none bytes) = (Path.lastPart (byte '.') ps).map (decodeFrom none) := by
  have hparent (s : List UInt8) : decodeFrom none s = ['.', '.'] ↔ s = [byte '.', byte '.'] :=
    decodeFrom_eq_iff (by simpa using plain_dot)
  rw [Path.lastChars_eq (segmented_decodeFrom h), Path.lastPart, counted_decodeFrom, List.getLast?_map,
    Option.filter_map]
  simp only [Function.comp_def, hparent, ne_eq, Path.lastPart]

end Segments

/-- The bytes of a text are UTF-8 throughout. -/
theorem decode?_toUTF8 (s : String) : decode? s.toUTF8.data.toList = some s := by
  rw [decode?, String.fromUTF8?]
  exact dif_pos s.isValidUTF8

end DevEnv.Text.Utf8
