import Mathlib.Data.List.Forall2
import DevEnv.Proofs.Text.Blank
import DevEnv.Proofs.Text.Split
import DevEnv.Text.Record

/-! Records read back. Fields are read back from every way to write them, and so are those that were quoted and joined;
fields joined without quotes are read back only if they need none, and no field is longer than its record. Trimming a
record reaches no further than into its last field, if that one is bare. -/
namespace DevEnv.Text.Record

/-- Whether a field has to be written in quotes. -/
def isSpecial (field : List Char) : Bool := field.contains ',' || field.contains '"'

variable {field : List Char}

theorem quoteChars_of_special (h : isSpecial field = true) : quoteChars field = '"' :: (doubled field ++ ['"']) :=
  if_pos h

theorem quoteChars_of_not_special (h : isSpecial field = false) : quoteChars field = field :=
  if_neg (by simpa [isSpecial] using h)

theorem isSpecial_iff : isSpecial field = true ↔ ',' ∈ field ∨ '"' ∈ field := by simp [isSpecial]

theorem isSpecial_cons {c : Char} :
    isSpecial (c :: field) = false ↔ (c ≠ ',' ∧ c ≠ '"') ∧ isSpecial field = false := by
  simp only [isSpecial, List.contains_cons, Bool.or_eq_false_iff, beq_eq_false_iff_ne, ne_comm]
  exact and_and_and_comm

theorem isSpecial_append {front : List Char} (h : isSpecial front = false) :
    isSpecial (front ++ field) = isSpecial field := by
  simp only [isSpecial, List.contains_append, Bool.or_eq_false_iff] at h ⊢
  rw [h.1, h.2, Bool.false_or, Bool.false_or]

section Scan

/-- Reads from the beginning of a field. -/
def start : List Char → Except Fault (List (List Char))
  | '"' :: rest => scan true [] rest
  | cs => scan false [] cs

theorem splitChars_eq_start {cs : List Char} (h : cs ≠ []) : splitChars cs = start cs := by
  unfold splitChars start
  split
  · exact absurd rfl h
  · rfl
  · next hq => split <;> first | rfl | exact absurd rfl (hq _)

theorem start_of_ne {c : Char} {rest : List Char} (h : c ≠ '"') : start (c :: rest) = scan false [] (c :: rest) := by
  unfold start
  split
  · next hq => exact absurd (List.cons.inj hq).1 h
  · rfl

theorem scan_false_nil (seen : List Char) : scan false seen [] = .ok [seen.reverse] := rfl

theorem scan_false_quote (seen rest : List Char) : scan false seen ('"' :: rest) = .error .bareQuote := rfl

theorem scan_false_cons {c : Char} (hc : c ≠ ',' ∧ c ≠ '"') (seen rest : List Char) :
    scan false seen (c :: rest) = scan false (c :: seen) rest := by
  rw [scan, if_neg hc.2]
  · exact fun _ h => absurd h hc.1
  · exact fun h => absurd h hc.1

theorem scan_true_nil (seen : List Char) : scan true seen [] = .error .unterminated := rfl

theorem scan_true_end (seen : List Char) : scan true seen ['"'] = .ok [seen.reverse] := rfl

theorem scan_true_quotes (seen rest : List Char) :
    scan true seen ('"' :: '"' :: rest) = scan true ('"' :: seen) rest := rfl

theorem scan_true_closed {c : Char} (hc : c ≠ ',' ∧ c ≠ '"') (seen rest : List Char) :
    scan true seen ('"' :: c :: rest) = .error (.afterQuote c) := by
  rw [scan]
  all_goals simp [hc]

theorem scan_true_cons {c : Char} (hc : c ≠ '"') (seen rest : List Char) :
    scan true seen (c :: rest) = scan true (c :: seen) rest := by
  rw [scan]
  all_goals simp [hc]

theorem scan_false_comma (seen rest : List Char) :
    scan false seen (',' :: rest) = (start rest).map (seen.reverse :: ·) := by
  cases rest with
  | nil => rfl
  | cons c rest =>
    by_cases hc : c = '"'
    · rw [hc]
      rfl
    · rw [start_of_ne hc]
      conv_lhs => simp only [scan, List.cons.injEq, hc, false_and, imp_false, not_false_eq_true, implies_true]

theorem scan_true_comma (seen rest : List Char) :
    scan true seen ('"' :: ',' :: rest) = (start rest).map (seen.reverse :: ·) := by
  cases rest with
  | nil => rfl
  | cons c rest =>
    by_cases hc : c = '"'
    · rw [hc]
      rfl
    · rw [start_of_ne hc]
      conv_lhs => simp only [scan, List.cons.injEq, hc, false_and, imp_false, not_false_eq_true, implies_true]

theorem scan_false_append (h : isSpecial field = false) (seen rest : List Char) :
    scan false seen (field ++ rest) = scan false (field.reverse ++ seen) rest := by
  induction field generalizing seen with
  | nil => rfl
  | cons c field ih =>
    obtain ⟨hc, hfield⟩ := isSpecial_cons.1 h
    rw [List.cons_append, scan_false_cons hc, ih hfield]
    simp

theorem scan_true_doubled (seen field rest : List Char) :
    scan true seen (doubled field ++ rest) = scan true (field.reverse ++ seen) rest := by
  induction field generalizing seen with
  | nil => rfl
  | cons c field ih =>
    rw [doubled]
    split
    · next hc =>
      rw [List.cons_append, List.cons_append, scan_true_quotes, ih, hc]
      simp
    · next hc =>
      rw [List.cons_append, scan_true_cons hc, ih]
      simp

end Scan

/-- A field does not begin with a quote. -/
def Unquoted (field : List Char) : Prop := field.head? ≠ some '"'

theorem start_of_unquoted {cs : List Char} (h : Unquoted cs) : start cs = scan false [] cs := by
  cases cs with
  | nil => rfl
  | cons c cs => exact start_of_ne fun hc => h (congrArg some hc)

theorem unquoted_append {rest : List Char} (h : isSpecial field = false) (hrest : field ≠ [] ∨ Unquoted rest) :
    Unquoted (field ++ rest) := by
  cases field with
  | nil => exact hrest.resolve_left (· rfl)
  | cons c field => simpa [Unquoted] using (isSpecial_cons.1 h).1.2

/-- The ways to write a field: as it stands if it has no special character, and in quotes with every quote doubled. -/
inductive Encodes (field : List Char) : List Char → Prop
  | bare (h : isSpecial field = false) : Encodes field field
  | quoted : Encodes field ('"' :: (doubled field ++ ['"']))

theorem encodes_quoteChars (field : List Char) : Encodes field (quoteChars field) := by
  cases h : isSpecial field with
  | true =>
    rw [quoteChars_of_special h]
    exact .quoted
  | false =>
    rw [quoteChars_of_not_special h]
    exact .bare h

section Encodes
variable {text : List Char}

theorem start_of_encodes (h : Encodes field text) : start text = .ok [field] := by
  cases h with
  | bare h =>
    have hunquoted : Unquoted (field ++ []) := unquoted_append h (.inr (by simp [Unquoted]))
    rw [← List.append_nil field, start_of_unquoted hunquoted, scan_false_append h, scan_false_nil]
    simp
  | quoted =>
    rw [start, scan_true_doubled, scan_true_end]
    simp

theorem start_of_encodes_comma (h : Encodes field text) (rest : List Char) :
    start (text ++ ',' :: rest) = (start rest).map (field :: ·) := by
  cases h with
  | bare h =>
    have hunquoted : Unquoted (field ++ ',' :: rest) := unquoted_append h (.inr (by simp [Unquoted]))
    rw [start_of_unquoted hunquoted, scan_false_append h, scan_false_comma]
    simp
  | quoted =>
    simp only [List.cons_append, List.append_assoc, List.nil_append]
    rw [start, scan_true_doubled, scan_true_comma]
    simp

/-- Fields are read back from any of the ways to write them. -/
theorem start_joinChars {fs texts : List (List Char)} (hne : fs ≠ []) (h : List.Forall₂ Encodes fs texts) :
    start (joinChars ',' texts) = .ok fs := by
  induction h with
  | nil => exact absurd rfl hne
  | @cons field text fs texts hfield hrest ih =>
    cases hrest with
    | nil => exact start_of_encodes hfield
    | @cons _ next _ more hnext hmore =>
      change start (text ++ ',' :: joinChars ',' (next :: more)) = _
      rw [start_of_encodes_comma hfield, ih (List.cons_ne_nil _ _)]
      rfl

end Encodes

theorem start_joinChars_quoteChars {fs : List (List Char)} (hne : fs ≠ []) :
    start (joinChars ',' (fs.map quoteChars)) = .ok fs :=
  start_joinChars hne (List.forall₂_map_right_iff.2 (List.forall₂_same.2 fun f _ => encodes_quoteChars f))

theorem join_quote (fs : List String) :
    join ',' (fs.map quote) = String.ofList (joinChars ',' ((fs.map String.toList).map quoteChars)) := by
  simp [join, quote, Function.comp_def]

/-- A record gives back the fields it was written from. One field without text is written like none at all. -/
theorem split_join_quote {fs : List String} (hnone : fs ≠ []) (hempty : fs ≠ [""]) :
    split (join ',' (fs.map quote)) = .ok fs := by
  have hne : joinChars ',' ((fs.map String.toList).map quoteChars) ≠ [] := by
    cases fs with
    | nil => exact absurd rfl hnone
    | cons f fs =>
      cases fs with
      | nil =>
        intro he
        have hf : quoteChars f.toList = [] := he
        have hfields := start_of_encodes (encodes_quoteChars f.toList)
        rw [hf] at hfields
        have hnil : [[]] = [f.toList] := Except.ok.inj hfields
        exact hempty (by simpa using hnil.symm)
      | cons next more => simp [joinChars]
  rw [split, join_quote, String.toList_ofList, splitChars_eq_start hne,
    start_joinChars_quoteChars (by simpa using hnone)]
  simp [Except.map, Function.comp_def]

section Bare
variable {cs : List Char} {fs : List (List Char)}

/-- A text runs to its first special character. -/
theorem exists_bare (cs : List Char) : ∃ bare, isSpecial bare = false ∧
    (cs = bare ∨ (∃ rest, cs = bare ++ ',' :: rest) ∨ ∃ rest, cs = bare ++ '"' :: rest) := by
  induction cs with
  | nil => exact ⟨[], rfl, .inl rfl⟩
  | cons c cs ih =>
    by_cases hcomma : c = ','
    · exact ⟨[], rfl, .inr (.inl ⟨cs, by rw [hcomma]; rfl⟩)⟩
    by_cases hquote : c = '"'
    · exact ⟨[], rfl, .inr (.inr ⟨cs, by rw [hquote]; rfl⟩)⟩
    obtain ⟨bare, hbare, hcs⟩ := ih
    refine ⟨c :: bare, isSpecial_cons.2 ⟨⟨hcomma, hquote⟩, hbare⟩, ?_⟩
    rcases hcs with rfl | ⟨rest, rfl⟩ | ⟨rest, rfl⟩
    · exact .inl rfl
    · exact .inr (.inl ⟨rest, rfl⟩)
    · exact .inr (.inr ⟨rest, rfl⟩)

/-- A bare field ends at the first comma or at the end, and what follows the comma is read from the beginning. -/
private theorem bare_of_scan {seen : List Char} (h : scan false seen cs = .ok (field :: fs)) :
    ∃ bare, isSpecial bare = false ∧ field = seen.reverse ++ bare ∧
      (cs = bare ∧ fs = [] ∨ ∃ rest, cs = bare ++ ',' :: rest ∧ start rest = .ok fs) := by
  obtain ⟨bare, hbare, rfl | ⟨rest, rfl⟩ | ⟨rest, rfl⟩⟩ := exists_bare cs
  · rw [← List.append_nil cs, scan_false_append hbare, scan_false_nil] at h
    cases h
    exact ⟨cs, hbare, by simp, .inl ⟨rfl, rfl⟩⟩
  · rw [scan_false_append hbare, scan_false_comma] at h
    cases hrest : start rest with
    | error e =>
      rw [hrest] at h
      cases h
    | ok more =>
      rw [hrest] at h
      cases h
      exact ⟨bare, hbare, by simp, .inr ⟨rest, rfl, hrest⟩⟩
  · rw [scan_false_append hbare, scan_false_quote] at h
    cases h

/-- Fields that do not begin with a quote are read back as they stand only if none has a special character. -/
private theorem not_special_of_start (h : ∀ f ∈ fs, Unquoted f) (hs : start (joinChars ',' fs) = .ok fs) :
    ∀ f ∈ fs, isSpecial f = false := by
  induction fs with
  | nil => nofun
  | cons field fs ih =>
    have hfield : Unquoted field := h field List.mem_cons_self
    cases fs with
    | nil =>
      rw [joinChars, start_of_unquoted hfield] at hs
      obtain ⟨bare, hbare, rfl, -⟩ := bare_of_scan hs
      simp [hbare]
    | cons next more =>
      have hjoined : Unquoted (joinChars ',' (field :: next :: more)) := by
        cases field with
        | nil => simp [Unquoted, joinChars]
        | cons c field => exact hfield
      rw [start_of_unquoted hjoined] at hs
      change scan false [] (field ++ ',' :: joinChars ',' (next :: more)) = _ at hs
      obtain ⟨bare, hbare, rfl, hrest⟩ := bare_of_scan hs
      rcases hrest with ⟨hcs, -⟩ | ⟨rest, hcs, hrest⟩
      · simp at hcs
      · obtain rfl := (List.cons.inj (List.append_cancel_left hcs)).2
        exact List.forall_mem_cons.2 ⟨hbare, ih (fun f hf => h f (List.mem_cons_of_mem _ hf)) hrest⟩

theorem split_eq_ok_iff {s : String} {fs : List String} :
    split s = .ok fs ↔ splitChars s.toList = .ok (fs.map String.toList) := by
  unfold split
  cases splitChars s.toList with
  | error e => simp [Except.map]
  | ok read =>
    simp only [Except.map, Except.ok.injEq]
    constructor
    · rintro rfl
      simp [Function.comp_def]
    · rintro rfl
      simp [Function.comp_def]

theorem split_eq_error_iff {s : String} {fault : Fault} :
    split s = .error fault ↔ splitChars s.toList = .error fault := by
  unfold split
  cases splitChars s.toList <;> simp [Except.map]

/-- Fields written without quotes are read back exactly if none of them has a special character. -/
theorem split_join_iff {fs : List String} (hnone : fs ≠ []) (hempty : fs ≠ [""]) (h : ∀ f ∈ fs, Unquoted f.toList) :
    split (join ',' fs) = .ok fs ↔ ∀ f ∈ fs, isSpecial f.toList = false := by
  constructor
  · intro hs
    rw [split_eq_ok_iff, join, String.toList_ofList] at hs
    have hne : joinChars ',' (fs.map String.toList) ≠ [] := by
      intro he
      rw [he, splitChars] at hs
      exact hnone (List.map_eq_nil_iff.1 (Except.ok.inj hs).symm)
    rw [splitChars_eq_start hne] at hs
    exact List.forall_mem_map.1 (not_special_of_start (List.forall_mem_map.2 h) hs)
  · intro hplain
    have hquote : fs.map quote = fs := by
      refine (List.map_congr_left fun f hf => ?_).trans (List.map_id fs)
      rw [quote, quoteChars_of_not_special (hplain f hf), String.ofList_toList, id]
    rw [← split_join_quote hnone hempty, hquote]

private theorem scan_of_no_quote (seen : List Char) (h : '"' ∉ cs) :
    scan false seen cs = .ok ((piecesBy (· = ',') cs).modifyHead (seen.reverse ++ ·)) := by
  induction cs generalizing seen with
  | nil => simp [scan_false_nil, piecesBy]
  | cons c cs ih =>
    have hrest : '"' ∉ cs := List.not_mem_of_not_mem_cons h
    by_cases hc : c = ','
    · subst hc
      have hunquoted : Unquoted cs := fun hh => hrest (List.mem_of_mem_head? hh)
      rw [scan_false_comma, start_of_unquoted hunquoted, ih [] hrest]
      obtain ⟨piece, more, hp⟩ := List.exists_cons_of_ne_nil (piecesBy_ne_nil (· = ',') cs)
      simp [piecesBy, hp, Except.map]
    · have hquote : c ≠ '"' := Ne.symm (List.ne_of_not_mem_cons h)
      obtain ⟨piece, more, hp⟩ := List.exists_cons_of_ne_nil (piecesBy_ne_nil (· = ',') cs)
      rw [scan_false_cons ⟨hc, hquote⟩, ih _ hrest]
      simp [piecesBy, hc, hp]

/-- Without quotes a record falls apart at its commas, wherever these come from. -/
theorem split_of_no_quote {s : String} (hne : s ≠ "") (h : '"' ∉ s.toList) : split s = .ok (pieces ',' s) := by
  have hs : s.toList ≠ [] := fun he => hne (String.toList_eq_nil_iff.1 he)
  have hunquoted : Unquoted s.toList := fun hh => h (List.mem_of_mem_head? hh)
  rw [split_eq_ok_iff, splitChars_eq_start hs, start_of_unquoted hunquoted, scan_of_no_quote [] h, pieces]
  obtain ⟨piece, more, hp⟩ := List.exists_cons_of_ne_nil (piecesBy_ne_nil (· = ',') s.toList)
  simp [hp, Function.comp_def]

end Bare

section Length
variable {fs : List (List Char)}

private theorem forall_mem_of_map_cons {p : List Char → Prop} {read : Except Fault (List (List Char))} (hfield : p field)
    (ih : ∀ {fs}, read = .ok fs → ∀ f ∈ fs, p f) (h : read.map (field :: ·) = .ok fs) : ∀ f ∈ fs, p f := by
  cases read with
  | error e => cases h
  | ok more =>
    cases h
    exact List.forall_mem_cons.2 ⟨hfield, ih rfl⟩

theorem length_le_of_scan {quoted : Bool} {seen cs : List Char} (h : scan quoted seen cs = .ok fs) :
    ∀ f ∈ fs, f.length ≤ seen.length + cs.length := by
  fun_induction scan quoted seen cs generalizing fs with
  | case1 seen | case7 seen =>
    cases h
    simp
  | case2 seen rest ih | case3 seen rest _ ih | case9 seen rest ih | case10 seen rest _ ih =>
    -- a field ends here, and the ones behind it are read from the rest
    refine forall_mem_of_map_cons (by simp) (fun hread f hf => ?_) h
    have hle : f.length ≤ _ := ih hread f hf
    simp only [List.length_cons, List.length_nil] at hle ⊢
    omega
  | case4 | case6 | case11 => cases h
  | case5 seen c rest _ _ _ ih | case8 seen rest ih | case12 seen c rest _ _ _ _ _ ih =>
    intro f hf
    have hle : f.length ≤ _ := ih h f hf
    simp only [List.length_cons] at hle ⊢
    omega

/-- A field is no longer than the record that it is read from. -/
theorem length_le_of_split {s f : String} {fs : List String} (h : split s = .ok fs) (hf : f ∈ fs) :
    f.length ≤ s.length := by
  have hchars : splitChars s.toList = .ok (fs.map String.toList) := split_eq_ok_iff.1 h
  have hmem : f.toList ∈ fs.map String.toList := List.mem_map_of_mem hf
  rw [← String.length_toList, ← String.length_toList]
  generalize s.toList = cs at hchars ⊢
  cases cs with
  | nil =>
    rw [← Except.ok.inj hchars] at hmem
    cases hmem
  | cons c cs =>
    rw [splitChars_eq_start (List.cons_ne_nil c cs)] at hchars
    by_cases hc : c = '"'
    · subst hc
      have hle := length_le_of_scan hchars _ hmem
      exact hle.trans (by simp)
    · rw [start_of_ne hc] at hchars
      simpa using length_le_of_scan hchars _ hmem

end Length

section Trim

/-- A field as it is read from the end of a trimmed record: there a bare field loses the blanks at its end. -/
def settled (field : List Char) : List Char := if isSpecial field then field else trimBack field

theorem settled_eq_self_iff :
    settled field = field ↔ isSpecial field = true ∨ ∀ c, field.getLast? = some c → isBlank c = false := by
  unfold settled
  split
  · next h => simp [h]
  · next h => rw [trimBack_eq_self_iff, Bool.eq_false_iff.2 h, or_iff_right Bool.false_ne_true]

theorem trimBack_quoteChars (field : List Char) : trimBack (quoteChars field) = quoteChars (settled field) := by
  unfold settled
  cases h : isSpecial field with
  | true =>
    rw [if_pos rfl, quoteChars_of_special h, ← List.cons_append, trimBack_append_cons rfl]
    rfl
  | false =>
    have hsub : isSpecial (trimBack field) = false := by
      have hmem := (isPrefix_trimBack field).subset
      simp only [isSpecial, Bool.or_eq_false_iff, List.contains_eq_mem, decide_eq_false_iff_not] at h ⊢
      exact ⟨fun hc => h.1 (hmem hc), fun hc => h.2 (hmem hc)⟩
    rw [if_neg Bool.false_ne_true, quoteChars_of_not_special h, quoteChars_of_not_special hsub]

/-- The field begins with a character that is no blank. -/
def Begins (field : List Char) : Prop := ∃ c rest, field = c :: rest ∧ isBlank c = false

theorem begins_quoteChars (h : Begins field) : Begins (quoteChars field) := by
  cases hs : isSpecial field with
  | true => exact ⟨_, _, quoteChars_of_special hs, rfl⟩
  | false => rwa [quoteChars_of_not_special hs]

theorem trimBack_append {front : List Char} (h : Begins field) :
    trimBack (front ++ field) = front ++ trimBack field := by
  obtain ⟨c, rest, rfl, hc⟩ := h
  rw [trimBack_append_cons hc, ← List.nil_append (c :: rest), trimBack_append_cons hc]
  rfl

theorem trimChars_joinChars {fs : List (List Char)} {last : List Char} (h : ∀ f ∈ fs ++ [last], Begins f) :
    trimChars (joinChars ',' ((fs ++ [last]).map quoteChars)) =
      joinChars ',' ((fs ++ [settled last]).map quoteChars) := by
  have hlast : Begins (quoteChars last) := begins_quoteChars (h last (by simp))
  cases fs with
  | nil =>
    obtain ⟨c, rest, hq, hc⟩ := hlast
    have hfront : trimFront (quoteChars last) = quoteChars last := trimFront_eq_self_iff.2 (by simp [hq, hc])
    change trimBack (trimFront (quoteChars last)) = quoteChars (settled last)
    rw [hfront, trimBack_quoteChars]
  | cons f fs =>
    have hne : (f :: fs).map quoteChars ≠ [] := by simp
    simp only [List.map_append, List.map_singleton]
    rw [joinChars_concat hne, joinChars_concat hne, ← trimBack_quoteChars, List.append_cons,
      List.append_cons _ _ (trimBack _), ← trimBack_append hlast]
    obtain ⟨c, rest, hq, hc⟩ := begins_quoteChars (h f (by simp))
    have hfront (tail : List Char) : trimFront (joinChars ',' ((f :: fs).map quoteChars) ++ tail) =
        joinChars ',' ((f :: fs).map quoteChars) ++ tail := by
      refine trimFront_eq_self_iff.2 ?_
      cases fs <;> simp [joinChars, hq, hc]
    rw [trimChars, List.append_assoc, hfront]

theorem begins_settled (h : Begins field) : Begins (settled field) := by
  unfold settled
  split
  · exact h
  · obtain ⟨c, rest, rfl, hc⟩ := h
    exact ⟨c, trimBack rest, trimBack_append_cons hc [] rest, hc⟩

/-- A trimmed record gives back its fields, the last one settled. -/
theorem split_trim_join_quote {fs : List String} {last : String} (h : ∀ f ∈ fs ++ [last], Begins f.toList) :
    split (trim (join ',' ((fs ++ [last]).map quote))) = .ok (fs ++ [String.ofList (settled last.toList)]) := by
  have hbegins : ∀ f ∈ fs.map String.toList ++ [last.toList], Begins f := by
    intro f hf
    rw [← List.map_singleton, ← List.map_append] at hf
    obtain ⟨s, hs, rfl⟩ := List.mem_map.1 hf
    exact h s hs
  have htrim : trim (join ',' ((fs ++ [last]).map quote)) =
      join ',' ((fs ++ [String.ofList (settled last.toList)]).map quote) := by
    rw [join_quote, join_quote, trim, String.toList_ofList]
    apply congrArg String.ofList
    simpa using trimChars_joinChars hbegins
  rw [htrim]
  refine split_join_quote (by simp) fun he => ?_
  obtain ⟨c, rest, hc, _⟩ := begins_settled (h last (by simp))
  have hmem : String.ofList (settled last.toList) ∈ [""] := he ▸ by simp
  simp [hc] at hmem

end Trim

end DevEnv.Text.Record
