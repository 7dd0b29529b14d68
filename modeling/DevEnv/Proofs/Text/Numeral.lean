import DevEnv.Text.Numeral

/-! Whole numbers read back from their digits. Digits have no zero in front, but for the digit of zero itself. -/
namespace DevEnv.Text

theorem digits_ne_nil (n : Nat) : digits n ≠ [] := Nat.toDigits_ne_nil

theorem isDigit_of_mem_digits {n : Nat} {c : Char} (h : c ∈ digits n) : c.isDigit :=
  Nat.isDigit_of_mem_toDigits (by decide) (by decide) h

theorem digits_of_lt {n : Nat} (h : n < 10) : digits n = [n.digitChar] := Nat.toDigits_of_lt_base h

theorem digits_of_le {n : Nat} (h : 10 ≤ n) : digits n = digits (n / 10) ++ [(n % 10).digitChar] :=
  Nat.toDigits_of_base_le (by decide) h

theorem eq_zero_of_digits_eq_cons {n : Nat} {cs : List Char} (h : digits n = '0' :: cs) : n = 0 ∧ cs = [] := by
  have digit : ∀ d < 10, Nat.digitChar d = '0' → d = 0 := by decide
  induction n using Nat.strongRecOn generalizing cs with
  | ind n ih =>
    by_cases hn : n < 10
    · rw [digits_of_lt hn, List.cons.injEq] at h
      exact ⟨digit n hn h.1, h.2.symm⟩
    · rw [digits_of_le (by omega)] at h
      obtain ⟨c, more, hq⟩ := List.exists_cons_of_ne_nil (digits_ne_nil (n / 10))
      rw [hq, List.cons_append, List.cons.injEq] at h
      have := (ih (n / 10) (by omega) (hq.trans (congrArg (· :: more) h.1))).1
      omega

theorem valueFrom_of_isDigit {n : Nat} {cs : List Char} (h : ∀ c ∈ cs, c.isDigit) :
    valueFrom n cs = some (Nat.ofDigitChars 10 cs n) := by
  induction cs generalizing n with
  | nil => rfl
  | cons c cs ih =>
    rw [valueFrom, if_pos (h c List.mem_cons_self)]
    exact ih fun x hx => h x (List.mem_cons_of_mem c hx)

theorem isDigit_of_valueFrom {n k : Nat} {cs : List Char} (h : valueFrom n cs = some k) : ∀ c ∈ cs, c.isDigit := by
  induction cs generalizing n with
  | nil => nofun
  | cons c cs ih =>
    rw [valueFrom] at h
    split at h
    · next hc => exact List.forall_mem_cons.2 ⟨hc, ih h⟩
    · cases h

theorem isDigit_of_value? {k : Nat} {cs : List Char} (h : value? cs = some k) : cs ≠ [] ∧ ∀ c ∈ cs, c.isDigit := by
  cases cs with
  | nil => cases h
  | cons c cs => exact ⟨List.cons_ne_nil c cs, isDigit_of_valueFrom h⟩

theorem value?_digits (n : Nat) : value? (digits n) = some n := by
  obtain ⟨c, cs, hc⟩ := List.exists_cons_of_ne_nil (digits_ne_nil n)
  have hv : value? (digits n) = valueFrom 0 (digits n) := by rw [hc, value?]; nofun
  rw [hv, valueFrom_of_isDigit fun _ => isDigit_of_mem_digits]
  exact congrArg some Nat.ofDigitChars_ten_toDigits

theorem natChars?_digits (n : Nat) : natChars? (digits n) = some n := by
  have hsign : (digits n).head? ≠ some '+' := by
    intro hp
    have := isDigit_of_mem_digits (List.mem_of_mem_head? hp)
    cases this
  rw [natChars?, if_neg hsign, value?_digits]

theorem readNat?_ofNat {limit n : Nat} (h : n ≤ limit) : readNat? limit (ofNat n) = some n := by
  rw [readNat?, ofNat, String.toList_ofList, natChars?_digits]
  simp [h]

theorem readPort?_ofNat (port : UInt16) : readPort? (ofNat port.toNat) = some port := by
  have hp : port.toNat ≤ UInt16.size - 1 := Nat.le_pred_of_lt port.toNat_lt
  rw [readPort?, readNat?_ofNat hp]
  exact congrArg some UInt16.ofNat_toNat

theorem intChars?_intChars (i : Int) : intChars? (intChars i) = some i := by
  unfold intChars
  split
  · next hi =>
    rw [intChars?, value?_digits]
    change some (-(i.natAbs : Int)) = some i
    rw [Option.some.injEq]
    omega
  · next hi =>
    unfold intChars?
    split
    · next rest hd =>
      have hdigit : '-'.isDigit := isDigit_of_mem_digits (n := i.natAbs) (hd ▸ List.mem_cons_self)
      cases hdigit
    · rw [natChars?_digits]
      change some (i.natAbs : Int) = some i
      rw [Option.some.injEq]
      omega

theorem readInt64?_ofInt (n : Int64) : readInt64? (ofInt n.toInt) = some n := by
  have hrange : isInt64 n.toInt = true := by
    simpa [isInt64, Int64.toInt_le] using n.le_toInt
  rw [readInt64?, ofInt, String.toList_ofList, intChars?_intChars, Option.filter_some, if_pos hrange, Option.map_some,
    Int64.ofInt_toInt]

end DevEnv.Text
