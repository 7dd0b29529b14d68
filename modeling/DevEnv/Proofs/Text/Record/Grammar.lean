import DevEnv.Gpu.Spec
import DevEnv.Proofs.Text.Record

/-! The grammar of records, and the texts outside of it. A text either writes a list of fields or has quotes at fault, and
reading tells which: it gives the only list that the text writes, or the only fault that it has. -/
namespace DevEnv.Text.Record

variable {field text rest cs : List Char} {fs : List (List Char)} {fault : Fault}

section Grammar

/-- A text writes a list of fields: there is a field, each is written in one of its ways, and commas stand between. -/
structure IsRecord (fs : List (List Char)) (cs : List Char) : Prop where
  nonempty : fs ≠ []
  written : ∃ texts, List.Forall₂ Encodes fs texts ∧ cs = joinChars ',' texts

theorem IsRecord.single (h : Encodes field text) : IsRecord [field] text :=
  ⟨List.cons_ne_nil _ _, [text], .cons h .nil, rfl⟩

theorem IsRecord.cons (h : Encodes field text) (hrest : IsRecord fs rest) :
    IsRecord (field :: fs) (text ++ ',' :: rest) := by
  obtain ⟨hne, texts, htexts, rfl⟩ := hrest
  refine ⟨List.cons_ne_nil _ _, text :: texts, .cons h htexts, ?_⟩
  cases htexts with
  | nil => exact absurd rfl hne
  | cons => rfl

theorem IsRecord.start_eq (h : IsRecord fs cs) : start cs = .ok fs := by
  obtain ⟨hne, texts, htexts, rfl⟩ := h
  exact start_joinChars hne htexts

/-- The quotes of a text are at fault in its first field, or behind a field that is written well. -/
inductive Faulty : Fault → List Char → Prop
  | unterminated (field : List Char) : Faulty .unterminated ('"' :: doubled field)
  | afterQuote (field : List Char) {c : Char} (h : c ≠ ',' ∧ c ≠ '"') (rest : List Char) :
    Faulty (.afterQuote c) ('"' :: (doubled field ++ '"' :: c :: rest))
  | bareQuote {bare : List Char} (hne : bare ≠ []) (h : isSpecial bare = false) (rest : List Char) :
    Faulty .bareQuote (bare ++ '"' :: rest)
  | behind {field text rest : List Char} {fault : Fault} (h : Encodes field text) (hrest : Faulty fault rest) :
    Faulty fault (text ++ ',' :: rest)

theorem Faulty.start_eq (h : Faulty fault cs) : start cs = .error fault := by
  induction h with
  | unterminated field =>
    rw [start, ← List.append_nil (doubled field), scan_true_doubled, scan_true_nil]
  | afterQuote field hc rest =>
    rw [start, scan_true_doubled, scan_true_closed hc]
  | bareQuote hne h rest =>
    rw [start_of_unquoted (unquoted_append h (.inl hne)), scan_false_append h, scan_false_quote]
  | behind h _ ih =>
    rw [start_of_encodes_comma h, ih]
    rfl

end Grammar

section Cover

/-- What a text begins with: its only field, a field and a comma behind it, or quotes at fault. -/
inductive Leading : List Char → Prop
  | only {field text : List Char} (h : Encodes field text) : Leading text
  | comma {field text : List Char} (h : Encodes field text) (rest : List Char) : Leading (text ++ ',' :: rest)
  | faulty {fault : Fault} {cs : List Char} (h : Faulty fault cs) : Leading cs

theorem doubled_cons {c : Char} (hc : c ≠ '"') (field : List Char) : doubled (c :: field) = c :: doubled field :=
  if_neg hc

/-- A text runs to its first quote that is not doubled. -/
private theorem exists_doubled : ∀ cs : List Char, ∃ field,
    cs = doubled field ∨ cs = doubled field ++ ['"'] ∨
      ∃ c rest, c ≠ '"' ∧ cs = doubled field ++ '"' :: c :: rest
  | [] => ⟨[], .inl rfl⟩
  | [c] => by
    by_cases hc : c = '"'
    · exact ⟨[], .inr (.inl (congrArg (· :: []) hc))⟩
    · exact ⟨[c], .inl (doubled_cons hc []).symm⟩
  | c :: d :: cs => by
    by_cases hc : c = '"'
    · by_cases hd : d = '"'
      · obtain ⟨field, hcs⟩ := exists_doubled cs
        refine ⟨'"' :: field, ?_⟩
        subst hc hd
        simpa [doubled] using hcs
      · exact ⟨[], .inr (.inr ⟨d, cs, hd, by rw [hc]; rfl⟩)⟩
    · obtain ⟨field, hcs⟩ := exists_doubled (d :: cs)
      refine ⟨c :: field, ?_⟩
      simpa [doubled_cons hc] using hcs

theorem leading (cs : List Char) : Leading cs := by
  by_cases hopen : Unquoted cs
  · obtain ⟨bare, hbare, rfl | ⟨rest, rfl⟩ | ⟨rest, rfl⟩⟩ := exists_bare cs
    · exact .only (.bare hbare)
    · exact .comma (.bare hbare) rest
    · refine .faulty (.bareQuote ?_ hbare rest)
      rintro rfl
      exact hopen rfl
  · obtain ⟨cs, rfl⟩ : ∃ more, cs = '"' :: more := by
      cases cs with
      | nil => exact absurd (by simp [Unquoted]) hopen
      | cons c cs => exact ⟨cs, by simpa [Unquoted] using hopen⟩
    obtain ⟨field, rfl | rfl | ⟨c, rest, hc, rfl⟩⟩ := exists_doubled cs
    · exact .faulty (.unterminated field)
    · exact .only .quoted
    · by_cases hcomma : c = ','
      · subst hcomma
        have hcomma : Leading ('"' :: (doubled field ++ ['"']) ++ ',' :: rest) := .comma .quoted rest
        simpa using hcomma
      · exact .faulty (.afterQuote field ⟨hcomma, hc⟩ rest)

/-- Every text writes fields or has quotes at fault. -/
theorem isRecord_or_faulty (cs : List Char) : (∃ fs, IsRecord fs cs) ∨ ∃ fault, Faulty fault cs := by
  induction hn : cs.length using Nat.strong_induction_on generalizing cs with
  | _ n ih =>
    subst hn
    -- behind the first comma a shorter text is left
    cases leading cs with
    | only h => exact .inl ⟨_, .single h⟩
    | @comma _ text h rest =>
      have hlt : rest.length < (text ++ ',' :: rest).length := by
        simp only [List.length_append, List.length_cons]
        omega
      rcases ih _ hlt rest rfl with ⟨fs, hfs⟩ | ⟨fault, hfault⟩
      · exact .inl ⟨_, hfs.cons h⟩
      · exact .inr ⟨fault, .behind h hfault⟩
    | faulty h => exact .inr ⟨_, h⟩

theorem start_eq_ok_iff : start cs = .ok fs ↔ IsRecord fs cs := by
  refine ⟨fun h => ?_, IsRecord.start_eq⟩
  -- no induction on the reader: what the text is decides what is read, and one thing only is read
  rcases isRecord_or_faulty cs with ⟨read, hread⟩ | ⟨fault, hfault⟩
  · exact Except.ok.inj (hread.start_eq.symm.trans h) ▸ hread
  · cases hfault.start_eq.symm.trans h

theorem start_eq_error_iff : start cs = .error fault ↔ Faulty fault cs := by
  refine ⟨fun h => ?_, Faulty.start_eq⟩
  rcases isRecord_or_faulty cs with ⟨fs, hfs⟩ | ⟨found, hfound⟩
  · cases hfs.start_eq.symm.trans h
  · exact Except.error.inj (hfound.start_eq.symm.trans h) ▸ hfound

end Cover

section Split
variable {s : String}

theorem split_eq_ok_iff_isRecord (hs : s ≠ "") {fs : List String} :
    split s = .ok fs ↔ IsRecord (fs.map String.toList) s.toList := by
  rw [split_eq_ok_iff, splitChars_eq_start (mt String.toList_eq_nil_iff.1 hs), start_eq_ok_iff]

theorem split_eq_error_iff_faulty (hs : s ≠ "") : split s = .error fault ↔ Faulty fault s.toList := by
  rw [split_eq_error_iff, splitChars_eq_start (mt String.toList_eq_nil_iff.1 hs), start_eq_error_iff]

theorem exists_fault (hs : s ≠ "") (h : ∀ fs : List String, ¬ IsRecord (fs.map String.toList) s.toList) :
    ∃ fault, split s = .error fault := by
  cases hsplit : split s with
  | ok fs => exact absurd ((split_eq_ok_iff_isRecord hs).1 hsplit) (h fs)
  | error fault => exact ⟨fault, rfl⟩

/-- A GPU specification is refused for the fault in its quotes. -/
theorem read_of_split_error {spec : String} (h : split (trim spec) = .error fault) :
    Gpu.Spec.read spec = .error (.quote fault (trim spec)) := by
  rw [Gpu.Spec.read, Gpu.Spec.fields, h]
  rfl

/-- A text with something in it is split into the fields that it writes; any other one is refused for the fault in its
quotes, and so is the GPU specification that it is. Fields that are quoted and joined are split again. -/
theorem grammar_of_split :
    (∀ s, s ≠ "" →
      (∀ fs, split s = .ok fs ↔ IsRecord (fs.map String.toList) s.toList) ∧
        (∀ fault, split s = .error fault ↔ Faulty fault s.toList) ∧
        ((∀ fs : List String, ¬ IsRecord (fs.map String.toList) s.toList) →
          ∃ fault, split s = .error fault ∧
            ∀ spec, trim spec = s → Gpu.Spec.read spec = .error (.quote fault s))) ∧
      ∀ fs, fs ≠ [] → fs ≠ [""] → split (join ',' (fs.map quote)) = .ok fs := by
  refine ⟨fun s hs => ⟨fun fs => split_eq_ok_iff_isRecord hs, fun fault => split_eq_error_iff_faulty hs, fun h => ?_⟩,
    fun fs => split_join_quote⟩
  obtain ⟨fault, hfault⟩ := exists_fault hs h
  refine ⟨fault, hfault, ?_⟩
  rintro spec rfl
  exact read_of_split_error hfault

/-- A quote doubled at the end of a field belongs to it, and the field is still open. -/
theorem grammar_of_split_doubled :
    IsRecord (["a\"", "", "b"].map String.toList) "\"a\"\"\",,b".toList ∧
      split "\"a\"\"\",,b" = .ok ["a\"", "", "b"] ∧
      (∀ fs : List String, ¬ IsRecord (fs.map String.toList) "b,\"a\"\"".toList) ∧
      Faulty .unterminated "b,\"a\"\"".toList ∧
      Gpu.Spec.read " b,\"a\"\"" = .error (.quote .unterminated "b,\"a\"\"") ∧
      split (join ',' (["a,\"", ""].map quote)) = .ok ["a,\"", ""] := by
  obtain ⟨hgrammar, hquote⟩ := grammar_of_split
  obtain ⟨hread, -, -⟩ := hgrammar "\"a\"\"\",,b" (by decide)
  obtain ⟨hfields, hfault, hrefused⟩ := hgrammar "b,\"a\"\"" (by decide)
  have hok : split "\"a\"\"\",,b" = .ok ["a\"", "", "b"] := by decide +kernel
  have herror : split "b,\"a\"\"" = .error .unterminated := by decide +kernel
  have hnone : ∀ fs : List String, ¬ IsRecord (fs.map String.toList) "b,\"a\"\"".toList := by
    intro fs hfs
    cases herror.symm.trans ((hfields fs).2 hfs)
  obtain ⟨fault, hsplit, hspec⟩ := hrefused hnone
  obtain rfl : Fault.unterminated = fault := Except.error.inj (herror.symm.trans hsplit)
  exact ⟨(hread _).1 hok, hok, hnone, (hfault _).1 herror, hspec _ (by decide +kernel),
    hquote _ (by decide) (by decide)⟩

end Split

end DevEnv.Text.Record
