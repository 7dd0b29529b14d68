import DevEnv.Proofs.Json.Escape
import DevEnv.Proofs.Text.Numeral
import DevEnv.Text.Split
import Mathlib.Data.List.DropRight

/-! The grammar of JSON texts as a relation between trees and their spellings, with blanks wherever they may stand.
Every spelling of a tree is read as that tree. -/
namespace DevEnv.Json

/-- Characters that mean nothing between the parts of a text. -/
def Blanks (cs : List Char) : Prop := ∀ c ∈ cs, isBlank c = true

instance (cs : List Char) : Decidable (Blanks cs) := List.decidableBAll _ cs

theorem blanks_nil : Blanks [] := List.forall_mem_nil _

/-- Blanks on both sides of a part of a text. -/
structure Padding where
  front : List Char
  back : List Char
  frontBlanks : Blanks front
  backBlanks : Blanks back

/-- No blanks. -/
def Padding.none : Padding := ⟨[], [], blanks_nil, blanks_nil⟩

def Padding.around (p : Padding) (cs : List Char) : List Char := p.front ++ (cs ++ p.back)

@[simp] theorem Padding.around_none (cs : List Char) : Padding.none.around cs = cs := List.append_nil cs

section Numbers

/-- A fraction is a point and at least one digit. -/
inductive Fraction : Option (List Char) → List Char → Prop where
  | none : Fraction none []
  | digits {ds : List Char} (ne : ds ≠ []) (h : ∀ c ∈ ds, c.isDigit) : Fraction (some ds) ('.' :: ds)

inductive Sign : Int → List Char → Prop where
  | none : Sign 1 []
  | plus : Sign 1 ['+']
  | minus : Sign (-1) ['-']

/-- An exponent is a letter, perhaps a sign, and at least one digit. -/
inductive Exponent : Option Int → List Char → Prop where
  | none : Exponent none []
  | digits {e : Char} {σ : Int} {sign ds : List Char} {n : Nat} (he : e = 'e' ∨ e = 'E') (hs : Sign σ sign)
      (hd : Text.value? ds = some n) : Exponent (some (σ * n)) (e :: (sign ++ ds))

/-- A number is a sign if it is negative, digits without a zero in front, a fraction and an exponent. -/
inductive Numeral (n : Number) : List Char → Prop where
  | mk {fraction exponent : List Char} (hf : Fraction n.fraction fraction) (he : Exponent n.exponent exponent) :
      Numeral n ((if n.negative then ['-'] else []) ++ (Text.digits n.whole ++ (fraction ++ exponent)))

end Numbers

/-- An item of an array in a text. -/
structure Item where
  padding : Padding
  value : Json
  text : List Char

/-- A member of an object in a text. -/
structure Member where
  padding : Padding
  key : List Char
  item : Item

def Item.chars (i : Item) : List Char := i.padding.around i.text

def Member.chars (m : Member) : List Char := m.padding.around ('"' :: (m.key ++ ['"'])) ++ ':' :: m.item.chars

/-- The spellings of a tree, from its first character to its last. -/
inductive Spells : Json → List Char → Prop where
  | null : Spells .null ['n', 'u', 'l', 'l']
  | true : Spells (.bool true) ['t', 'r', 'u', 'e']
  | false : Spells (.bool false) ['f', 'a', 'l', 's', 'e']
  | number {n : Number} {cs : List Char} (h : Numeral n cs) : Spells (.number n) cs
  | string {written : List Char} (h : Body written) : Spells (.string written) ('"' :: (written ++ ['"']))
  | emptyArray {inside : List Char} (h : Blanks inside) : Spells (.array []) ('[' :: (inside ++ [']']))
  | array {items : List Item} (ne : items ≠ []) (h : ∀ i ∈ items, Spells i.value i.text) :
      Spells (.array (items.map (·.value))) ('[' :: (Text.joinChars ',' (items.map Item.chars) ++ [']']))
  | emptyObject {inside : List Char} (h : Blanks inside) : Spells (.object []) ('{' :: (inside ++ ['}']))
  | object {members : List Member} (ne : members ≠ []) (keys : ∀ m ∈ members, Body m.key)
      (h : ∀ m ∈ members, Spells m.item.value m.item.text) :
      Spells (.object (members.map fun m => (m.key, m.item.value)))
        ('{' :: (Text.joinChars ',' (members.map Member.chars) ++ ['}']))

section Blanks
variable {front cs : List Char}

theorem skipBlank_append (h : Blanks front) (cs : List Char) : skipBlank (front ++ cs) = skipBlank cs :=
  List.dropWhile_append_of_pos h

theorem skipBlank_skipBlank (cs : List Char) : skipBlank (skipBlank cs) = skipBlank cs :=
  List.dropWhile_idempotent isBlank cs

/-- Characters at the start of a value: no blank and none that ends an array or an object. -/
def Opens (c : Char) : Prop := isBlank c = false ∧ c ≠ ']' ∧ c ≠ '}'

theorem opens_of_isDigit {c : Char} (h : c.isDigit) : Opens c := by
  unfold Opens isBlank
  refine ⟨?_, ?_, ?_⟩
  · simp only [Bool.or_eq_false_iff, decide_eq_false_iff_not]
    refine ⟨⟨⟨?_, ?_⟩, ?_⟩, ?_⟩ <;> rintro rfl <;> cases h
  · rintro rfl
    cases h
  · rintro rfl
    cases h

theorem skipBlank_of_opens {c : Char} (h : Opens c) : skipBlank (c :: cs) = c :: cs := by
  rw [skipBlank, List.dropWhile_cons_of_neg]
  simp [h.1]

end Blanks

section Numerals
variable {cs rest : List Char}

/-- What may follow digits. -/
def EndsDigits (rest : List Char) : Prop := ∀ c ∈ rest.head?, c.isDigit = false

/-- What may follow a number: nothing that would go on with it. -/
def Stops (rest : List Char) : Prop := ∀ c ∈ rest.head?, c.isDigit = false ∧ c ≠ '.' ∧ c ≠ 'e' ∧ c ≠ 'E'

theorem Stops.endsDigits (h : Stops rest) : EndsDigits rest := fun c hc => (h c hc).1

theorem digitRun_append (hd : ∀ c ∈ cs, c.isDigit) (hr : EndsDigits rest) : digitRun (cs ++ rest) = (cs, rest) := by
  unfold digitRun
  rw [List.takeWhile_append_of_pos hd, List.dropWhile_append_of_pos hd]
  cases rest with
  | nil => simp
  | cons c rest => simp [hr c rfl]

theorem readWhole_digits (n : Nat) (hr : EndsDigits rest) : readWhole (Text.digits n ++ rest) = some (n, rest) := by
  obtain ⟨c, cs, hc⟩ := List.exists_cons_of_ne_nil (Text.digits_ne_nil n)
  by_cases h0 : c = '0'
  · obtain ⟨rfl, rfl⟩ := Text.eq_zero_of_digits_eq_cons (h0 ▸ hc)
    rfl
  · have hrun : digitRun (Text.digits n ++ rest) = (Text.digits n, rest) :=
      digitRun_append (fun _ => Text.isDigit_of_mem_digits) hr
    rw [hc, List.cons_append] at hrun ⊢
    rw [readWhole, hrun, ← hc, Text.value?_digits]
    · rfl
    · intro _ he
      exact absurd (List.cons.inj he).1 h0

theorem readFraction_fraction {f : Option (List Char)} (hf : Fraction f cs) (hr : EndsDigits rest)
    (hp : ∀ c ∈ rest.head?, c ≠ '.') : readFraction (cs ++ rest) = some (f, rest) := by
  cases hf with
  | none =>
    rw [List.nil_append]
    unfold readFraction
    split
    · exact absurd rfl (hp '.' rfl)
    · rfl
  | @digits ds ne hd =>
    rw [List.cons_append, readFraction, digitRun_append hd hr]
    simp [ne]

theorem readExponent_exponent {x : Option Int} (hx : Exponent x cs) (hr : Stops rest) :
    readExponent (cs ++ rest) = some (x, rest) := by
  cases hx with
  | none =>
    rw [List.nil_append]
    cases rest with
    | nil => rfl
    | cons c rest =>
      obtain ⟨_, _, he, hE⟩ := hr c rfl
      simp [readExponent, he, hE]
  | @digits e σ sign ds n he hs hd =>
    have hrun : digitRun (ds ++ rest) = (ds, rest) := digitRun_append (Text.isDigit_of_value? hd).2 hr.endsDigits
    have hletter : (decide (e = 'e') || decide (e = 'E')) = true := by simpa using he
    cases hs with
    | plus => simp [readExponent, hletter, hrun, hd]
    | minus => simp [readExponent, hletter, hrun, hd]
    | none =>
      obtain ⟨c, more, rfl⟩ := List.exists_cons_of_ne_nil (Text.isDigit_of_value? hd).1
      have hc : c.isDigit = true := (Text.isDigit_of_value? hd).2 c List.mem_cons_self
      have hplus : c ≠ '+' := by
        rintro rfl
        cases hc
      have hminus : c ≠ '-' := by
        rintro rfl
        cases hc
      rw [List.cons_append] at hrun
      simp [readExponent, hletter, hplus, hminus, hrun, hd]

/-- The text of an unsigned number starts with a digit. -/
theorem digits_cons (n : Nat) : ∃ c cs, Text.digits n = c :: cs ∧ c.isDigit := by
  obtain ⟨c, cs, hc⟩ := List.exists_cons_of_ne_nil (Text.digits_ne_nil n)
  exact ⟨c, cs, hc, Text.isDigit_of_mem_digits (hc ▸ List.mem_cons_self)⟩

private theorem readUnsigned (negative : Bool) (whole : Nat) {f : Option (List Char)} {x : Option Int}
    {fraction exponent : List Char} (hf : Fraction f fraction) (hx : Exponent x exponent) (hr : Stops rest) : (do
      let (whole, body) ← readWhole (Text.digits whole ++ (fraction ++ (exponent ++ rest)))
      let (fraction, body) ← readFraction body
      let (exponent, body) ← readExponent body
      return ((⟨negative, whole, fraction, exponent⟩ : Number), body)) = some (⟨negative, whole, f, x⟩, rest) := by
  have hexponent : ∀ c ∈ (exponent ++ rest).head?, c.isDigit = false ∧ c ≠ '.' := by
    cases hx with
    | none => exact fun c hc => ⟨(hr c hc).1, (hr c hc).2.1⟩
    | digits he _ _ => rcases he with rfl | rfl <;> rintro c ⟨⟩ <;> decide
  have hfraction : EndsDigits (fraction ++ (exponent ++ rest)) := by
    cases hf with
    | none => exact fun c hc => (hexponent c hc).1
    | digits _ _ =>
      rintro c ⟨⟩
      decide
  rw [readWhole_digits whole hfraction]
  dsimp only [bind, Option.bind]
  rw [readFraction_fraction hf (fun c hc => (hexponent c hc).1) fun c hc => (hexponent c hc).2]
  dsimp only
  rw [readExponent_exponent hx hr]
  rfl

/-- A number is read up to what follows it. -/
theorem readNumber_numeral {n : Number} (h : Numeral n cs) (hr : Stops rest) :
    readNumber (cs ++ rest) = some (n, rest) := by
  obtain ⟨negative, whole, f, x⟩ := n
  obtain @⟨fraction, exponent, hf, hx⟩ := h
  have hbody := readUnsigned negative whole hf hx hr
  simp only [List.append_assoc]
  cases negative with
  | true => exact hbody
  | false =>
    obtain ⟨c, cs, hc, hd⟩ := digits_cons whole
    simp only [Bool.false_eq_true, if_false, List.nil_append]
    rw [← hbody]
    rw [hc, List.cons_append]
    unfold readNumber
    split
    · next heq =>
      split at heq
      · next hm =>
        rw [(List.cons.inj hm).1] at hd
        cases hd
      · cases heq
        rfl

end Numerals

section Values
variable {j : Json} {cs rest : List Char} {fuel : Nat}

theorem numeral_cons {n : Number} (h : Numeral n cs) : ∃ c more, cs = c :: more ∧ (c = '-' ∨ c.isDigit) := by
  obtain @⟨fraction, exponent, -, -⟩ := h
  obtain ⟨c, more, hc, hd⟩ := digits_cons n.whole
  cases n.negative with
  | true => exact ⟨_, _, rfl, .inl rfl⟩
  | false => exact ⟨c, _, by rw [hc]; rfl, .inr hd⟩

theorem opens_of_numeral {c : Char} (h : c = '-' ∨ c.isDigit) : Opens c := by
  rcases h with rfl | h
  · exact ⟨by decide, by decide, by decide⟩
  · exact opens_of_isDigit h

theorem Spells.opens (h : Spells j cs) : ∃ c more, cs = c :: more ∧ Opens c := by
  cases h with
  | number h =>
    obtain ⟨c, more, hc, hstart⟩ := numeral_cons h
    exact ⟨c, more, hc, opens_of_numeral hstart⟩
  | _ => exact ⟨_, _, rfl, by decide, by decide, by decide⟩

theorem Spells.between_brackets {items : List Json} (h : Spells (.array items) cs) :
    ∃ inside, cs = '[' :: (inside ++ [']']) := by
  cases h <;> exact ⟨_, rfl⟩

/-- Blanks behind a value and the sign behind them end it. -/
theorem stops_append {back : List Char} (h : Blanks back) (hr : Stops rest) : Stops (back ++ rest) := by
  cases back with
  | nil => exact hr
  | cons b back =>
    rintro c ⟨⟩
    have hb : isBlank b = true := h b List.mem_cons_self
    simp only [isBlank, Bool.or_eq_true, decide_eq_true_eq] at hb
    rcases hb with ((rfl | rfl) | rfl) | rfl <;> decide

theorem readValue_skipBlank : readValue fuel (skipBlank cs) = readValue fuel cs := by
  cases fuel with
  | zero => rfl
  | succ fuel => simp only [readValue, skipBlank_skipBlank]

theorem readItems_skipBlank (cs : List Char) : readItems fuel (skipBlank cs) = readItems fuel cs := by
  cases fuel with
  | zero => rfl
  | succ fuel => simp only [readItems, readValue_skipBlank]

theorem readMembers_skipBlank (cs : List Char) : readMembers fuel (skipBlank cs) = readMembers fuel cs := by
  cases fuel with
  | zero => rfl
  | succ fuel => simp only [readMembers, skipBlank_skipBlank]

/-- A spelling is read as a value with fuel for its characters. -/
def Reads (j : Json) (cs : List Char) : Prop :=
  ∀ fuel rest, cs.length < fuel → Stops rest → readValue fuel (cs ++ rest) = some (j, rest)

theorem reads_of_add_one (h : ∀ fuel rest, cs.length < fuel + 1 → Stops rest →
    readValue (fuel + 1) (cs ++ rest) = some (j, rest)) : Reads j cs := by
  intro fuel rest hf hr
  obtain ⟨fuel, rfl⟩ := Nat.exists_eq_add_one_of_ne_zero (Nat.ne_zero_of_lt hf)
  exact h fuel rest hf hr

theorem length_around (p : Padding) (cs : List Char) :
    (p.around cs).length = p.front.length + (cs.length + p.back.length) := by
  simp [Padding.around]

/-- An item is read with the blanks in front of it, up to those behind it. -/
theorem Reads.item {i : Item} (h : Reads i.value i.text) (hf : i.chars.length < fuel) (hr : Stops rest) :
    readValue fuel (i.chars ++ rest) = some (i.value, i.padding.back ++ rest) := by
  rw [Item.chars, length_around] at hf
  have hread : readValue fuel (i.text ++ (i.padding.back ++ rest)) = some (i.value, i.padding.back ++ rest) :=
    h _ _ (by omega) (stops_append i.padding.backBlanks hr)
  rw [← readValue_skipBlank] at hread ⊢
  simpa only [Item.chars, Padding.around, List.append_assoc, skipBlank_append i.padding.frontBlanks] using hread

/-- Behind the blanks after a value stands a sign that ends it. -/
theorem skipBlank_back (p : Padding) {c : Char} (hc : isBlank c = false) :
    skipBlank (p.back ++ c :: rest) = c :: rest := by
  rw [skipBlank_append p.backBlanks, skipBlank, List.dropWhile_cons_of_neg]
  simp [hc]

theorem stops_comma : Stops (',' :: rest) := by
  rintro c ⟨⟩
  decide

theorem stops_bracket : Stops (']' :: rest) := by
  rintro c ⟨⟩
  decide

theorem stops_brace : Stops ('}' :: rest) := by
  rintro c ⟨⟩
  decide

theorem readItems_items {i : Item} {items : List Item} (h : ∀ x ∈ i :: items, Reads x.value x.text)
    (hf : (Text.joinChars ',' ((i :: items).map Item.chars)).length + 1 < fuel) :
    readItems fuel (Text.joinChars ',' ((i :: items).map Item.chars) ++ ']' :: rest) =
      some ((i :: items).map (·.value), rest) := by
  obtain ⟨fuel, rfl⟩ := Nat.exists_eq_add_one_of_ne_zero (Nat.ne_zero_of_lt hf)
  induction items generalizing i fuel with
  | nil =>
    have hlength : i.chars.length < fuel := Nat.lt_of_succ_lt_succ hf
    change readItems (fuel + 1) (i.chars ++ ']' :: rest) = _
    rw [readItems, (h i List.mem_cons_self).item hlength stops_bracket]
    dsimp only [bind, Option.bind]
    rw [skipBlank_back _ (by decide)]
    rfl
  | cons next items ih =>
    change (i.chars ++ ',' :: Text.joinChars ',' ((next :: items).map Item.chars)).length + 1 < fuel + 1 at hf
    rw [List.length_append, List.length_cons] at hf
    change readItems (fuel + 1)
      (i.chars ++ ',' :: Text.joinChars ',' ((next :: items).map Item.chars) ++ ']' :: rest) = _
    obtain ⟨fuel, rfl⟩ := Nat.exists_eq_add_one_of_ne_zero (n := fuel) (by omega)
    have hnext : readItems (fuel + 1) (Text.joinChars ',' ((next :: items).map Item.chars) ++ ']' :: rest) =
        some ((next :: items).map (·.value), rest) :=
      ih (fun j hj => h j (List.mem_cons_of_mem _ hj)) fuel (by omega)
    rw [List.append_assoc, List.cons_append, readItems, (h i List.mem_cons_self).item (by omega) stops_comma]
    dsimp only [bind, Option.bind]
    rw [skipBlank_back _ (by decide)]
    change (readItems (fuel + 1) _).map _ = _
    rw [hnext]
    rfl

/-- A member is read up to what follows its value, which tells whether there are more. -/
private theorem readMembers_step {m : Member} (hk : Body m.key) (h : Reads m.item.value m.item.text)
    (hf : m.item.chars.length < fuel) (hr : Stops rest) :
    readMembers (fuel + 1) (m.chars ++ rest) =
      match skipBlank (m.item.padding.back ++ rest) with
      | ',' :: rest => (readMembers fuel rest).map fun p => ((m.key, m.item.value) :: p.1, p.2)
      | '}' :: rest => some ([(m.key, m.item.value)], rest)
      | _ => none := by
  have hopen : skipBlank (m.chars ++ rest) =
      '"' :: (m.key ++ '"' :: (m.padding.back ++ ':' :: (m.item.chars ++ rest))) := by
    simp only [Member.chars, Padding.around, List.append_assoc, List.cons_append, List.nil_append,
      skipBlank_append m.padding.frontBlanks]
    rfl
  rw [readMembers, hopen]
  change (scanString (m.key ++ '"' :: (m.padding.back ++ ':' :: (m.item.chars ++ rest))) >>= _) = _
  rw [hk.scanString]
  dsimp only [bind, Option.bind]
  rw [skipBlank_back m.padding (by decide)]
  change (readValue fuel (m.item.chars ++ rest) >>= _) = _
  rw [h.item hf hr]
  rfl

theorem readMembers_members {m : Member} {members : List Member} (hk : ∀ x ∈ m :: members, Body x.key)
    (h : ∀ x ∈ m :: members, Reads x.item.value x.item.text)
    (hf : (Text.joinChars ',' ((m :: members).map Member.chars)).length + 1 < fuel) :
    readMembers fuel (Text.joinChars ',' ((m :: members).map Member.chars) ++ '}' :: rest) =
      some ((m :: members).map fun m => (m.key, m.item.value), rest) := by
  have hitem (m : Member) : m.item.chars.length < m.chars.length := by
    rw [Member.chars, List.length_append, List.length_cons]
    omega
  obtain ⟨fuel, rfl⟩ := Nat.exists_eq_add_one_of_ne_zero (Nat.ne_zero_of_lt hf)
  induction members generalizing m fuel with
  | nil =>
    have hlength : m.chars.length < fuel := Nat.lt_of_succ_lt_succ hf
    change readMembers (fuel + 1) (m.chars ++ '}' :: rest) = _
    rw [readMembers_step (hk m List.mem_cons_self) (h m List.mem_cons_self) ((hitem m).trans hlength) stops_brace,
      skipBlank_back _ (by decide)]
    rfl
  | cons next members ih =>
    change (m.chars ++ ',' :: Text.joinChars ',' ((next :: members).map Member.chars)).length + 1 < fuel + 1 at hf
    rw [List.length_append, List.length_cons] at hf
    change readMembers (fuel + 1)
      (m.chars ++ ',' :: Text.joinChars ',' ((next :: members).map Member.chars) ++ '}' :: rest) = _
    obtain ⟨fuel, rfl⟩ := Nat.exists_eq_add_one_of_ne_zero (n := fuel) (by omega)
    have hlength := hitem m
    have hnext : readMembers (fuel + 1) (Text.joinChars ',' ((next :: members).map Member.chars) ++ '}' :: rest) =
        some ((next :: members).map fun m => (m.key, m.item.value), rest) :=
      ih (fun x hx => hk x (List.mem_cons_of_mem _ hx)) (fun x hx => h x (List.mem_cons_of_mem _ hx)) fuel (by omega)
    rw [List.append_assoc, List.cons_append, readMembers_step (hk m List.mem_cons_self) (h m List.mem_cons_self)
      (by omega) stops_comma, skipBlank_back _ (by decide)]
    change (readMembers (fuel + 1) _).map _ = _
    rw [hnext]
    rfl

/-- What starts as a number is read as one. -/
private theorem readValue_number {c : Char} (h : c = '-' ∨ c.isDigit) :
    readValue (fuel + 1) (c :: cs) = (readNumber (c :: cs)).map fun p => (.number p.1, p.2) := by
  rw [readValue, skipBlank_of_opens (opens_of_numeral h)]
  split <;> first
    | rfl
    | next heq =>
      rw [(List.cons.inj heq).1] at h
      rcases h with h | h <;> cases h

/-- An array is read item by item unless it ends before the first one. -/
private theorem readValue_array {c : Char} {more : List Char} (hcs : skipBlank cs = c :: more) (h : Opens c) :
    readValue (fuel + 1) ('[' :: cs) = (readItems fuel cs).map fun p => (.array p.1, p.2) := by
  have hbracket : skipBlank ('[' :: cs) = '[' :: cs := rfl
  rw [← readItems_skipBlank cs]
  simp only [readValue, hbracket, hcs]
  split
  · next heq => exact absurd (List.cons.inj heq).1 h.2.1
  · rfl

private theorem readValue_object {c : Char} {more : List Char} (hcs : skipBlank cs = c :: more) (h : Opens c) :
    readValue (fuel + 1) ('{' :: cs) = (readMembers fuel cs).map fun p => (.object p.1, p.2) := by
  have hbrace : skipBlank ('{' :: cs) = '{' :: cs := rfl
  rw [← readMembers_skipBlank cs]
  simp only [readValue, hbrace, hcs]
  split
  · next heq => exact absurd (List.cons.inj heq).1 h.2.2
  · rfl

/-- Joined pieces begin with the first one. -/
private theorem joinChars_cons (piece : List Char) (more : List (List Char)) :
    ∃ tail, Text.joinChars ',' (piece :: more) = piece ++ tail := by
  cases more with
  | nil => exact ⟨[], (List.append_nil _).symm⟩
  | cons next more => exact ⟨_, rfl⟩

private theorem items_open {i : Item} (items : List Item) (h : Spells i.value i.text) (rest : List Char) :
    ∃ c more, skipBlank (Text.joinChars ',' ((i :: items).map Item.chars) ++ rest) = c :: more ∧ Opens c := by
  obtain ⟨tail, htail⟩ := joinChars_cons i.chars (items.map Item.chars)
  obtain ⟨c, more, hc, ho⟩ := h.opens
  refine ⟨c, more ++ i.padding.back ++ tail ++ rest, ?_, ho⟩
  rw [List.map_cons, htail, Item.chars, Padding.around, List.append_assoc, List.append_assoc,
    skipBlank_append i.padding.frontBlanks, hc]
  simp [skipBlank_of_opens ho]

private theorem members_open (m : Member) (members : List Member) (rest : List Char) :
    ∃ c more, skipBlank (Text.joinChars ',' ((m :: members).map Member.chars) ++ rest) = c :: more ∧ Opens c := by
  obtain ⟨tail, htail⟩ := joinChars_cons m.chars (members.map Member.chars)
  have ho : Opens '"' := ⟨by decide, by decide, by decide⟩
  rw [List.map_cons, htail, Member.chars, Padding.around]
  simp only [List.append_assoc, skipBlank_append m.padding.frontBlanks, List.cons_append]
  exact ⟨_, _, skipBlank_of_opens ho, ho⟩

/-- Every spelling of a tree is read as the tree. -/
theorem Spells.reads (h : Spells j cs) : Reads j cs := by
  induction h with
  | null => exact reads_of_add_one fun _ _ _ _ => rfl
  | true => exact reads_of_add_one fun _ _ _ _ => rfl
  | false => exact reads_of_add_one fun _ _ _ _ => rfl
  | number h =>
    refine reads_of_add_one fun fuel rest _ hr => ?_
    obtain ⟨c, more, rfl, hstart⟩ := numeral_cons h
    rw [List.cons_append, readValue_number hstart, ← List.cons_append, readNumber_numeral h hr]
    rfl
  | @string written h =>
    refine reads_of_add_one fun fuel rest _ _ => ?_
    rw [List.cons_append, List.append_assoc]
    change (scanString (written ++ '"' :: rest)).map _ = _
    rw [h.scanString]
    rfl
  | @emptyArray inside h =>
    refine reads_of_add_one fun fuel rest _ _ => ?_
    have hbracket (cs : List Char) : skipBlank ('[' :: cs) = '[' :: cs := rfl
    have hclose : skipBlank (inside ++ ']' :: rest) = ']' :: rest := by
      rw [skipBlank_append h]
      rfl
    simp only [List.cons_append, List.append_assoc, List.nil_append, readValue, hbracket, hclose]
  | @array items ne h ih =>
    refine reads_of_add_one fun fuel rest hf _ => ?_
    obtain ⟨i, items, rfl⟩ := List.exists_cons_of_ne_nil ne
    simp only [List.length_cons, List.length_append, List.length_nil] at hf
    obtain ⟨c, more, hc, ho⟩ := items_open items (h i List.mem_cons_self) (']' :: rest)
    have hitems : readItems fuel (Text.joinChars ',' ((i :: items).map Item.chars) ++ ']' :: rest) =
        some ((i :: items).map (·.value), rest) := readItems_items ih (by omega)
    rw [List.cons_append, List.append_assoc, List.singleton_append, readValue_array hc ho, hitems]
    rfl
  | @emptyObject inside h =>
    refine reads_of_add_one fun fuel rest _ _ => ?_
    have hbrace (cs : List Char) : skipBlank ('{' :: cs) = '{' :: cs := rfl
    have hclose : skipBlank (inside ++ '}' :: rest) = '}' :: rest := by
      rw [skipBlank_append h]
      rfl
    simp only [List.cons_append, List.append_assoc, List.nil_append, readValue, hbrace, hclose]
  | @object members ne keys h ih =>
    refine reads_of_add_one fun fuel rest hf _ => ?_
    obtain ⟨m, members, rfl⟩ := List.exists_cons_of_ne_nil ne
    simp only [List.length_cons, List.length_append, List.length_nil] at hf
    obtain ⟨c, more, hc, ho⟩ := members_open m members ('}' :: rest)
    have hmembers : readMembers fuel (Text.joinChars ',' ((m :: members).map Member.chars) ++ '}' :: rest) =
        some ((m :: members).map fun m => (m.key, m.item.value), rest) := readMembers_members keys ih (by omega)
    rw [List.cons_append, List.append_assoc, List.singleton_append, readValue_object hc ho, hmembers]
    rfl

/-- A text that spells a value between blanks is read as the value. -/
theorem readChars_of_spells (h : Spells j cs) (p : Padding) : readChars (p.around cs) = some j := by
  have hstop : Stops (p.back ++ []) := stops_append p.backBlanks nofun
  have hlength : cs.length < (p.around cs).length + 1 := by
    rw [length_around]
    omega
  have hread := h.reads _ _ hlength hstop
  rw [List.append_nil, ← readValue_skipBlank] at hread
  have hend : skipBlank p.back = [] := List.dropWhile_eq_nil_iff.2 p.backBlanks
  rw [readChars, ← readValue_skipBlank]
  conv in skipBlank (p.around cs) => rw [Padding.around, skipBlank_append p.frontBlanks]
  rw [hread]
  dsimp only [bind, Option.bind]
  rw [hend]
  rfl

end Values

end DevEnv.Json
