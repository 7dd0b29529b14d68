import DevEnv.Options
import DevEnv.Proofs.Text.Utf8

/-! What a directory gives an environment. Its name is put together from the runs of the directory's name, it is cut
between characters, and a directory of that name gives it again. Its working directory is not outside its home. -/
namespace DevEnv.Naming
open Text

section Characters

/-- Letters and digits of ASCII. -/
def Alnum (c : Char) : Prop := 'A' ≤ c ∧ c ≤ 'Z' ∨ 'a' ≤ c ∧ c ≤ 'z' ∨ '0' ≤ c ∧ c ≤ '9'

/-- Characters that a name can have. -/
def InName (c : Char) : Prop := Alnum c ∨ c = '_' ∨ c = '.' ∨ c = '-'

instance (c : Char) : Decidable (Alnum c) := inferInstanceAs (Decidable (_ ∨ _))

instance (c : Char) : Decidable (InName c) := inferInstanceAs (Decidable (_ ∨ _))

variable {c : Char}

theorem isAlphanum_iff : c.isAlphanum ↔ Alnum c := by
  delta Char.isAlphanum Char.isAlpha Char.isUpper Char.isLower Char.isDigit
  simp only [Alnum, Char.le_def, Bool.or_eq_true, Bool.and_eq_true, decide_eq_true_eq, ge_iff_le, or_assoc]

theorem isJoint_iff : isJoint c ↔ c = '_' ∨ c = '.' ∨ c = '-' := by
  simp [isJoint, or_assoc]

theorem ne_slash_of_inName (h : InName c) : c ≠ '/' := by
  intro hc
  subst hc
  exact absurd h (by decide)

theorem ne_dot_of_alnum (h : Alnum c) : c ≠ '.' := by
  intro hc
  subst hc
  exact absurd h (by decide)

theorem utf8Size_of_inName (h : InName c) : c.utf8Size = 1 := by
  rw [Char.utf8Size_eq_one_iff, UInt32.le_iff_toNat_le]
  simp only [InName, Alnum, Char.le_def, UInt32.le_iff_toNat_le] at h
  have hZ : 'Z'.val.toNat = 90 := rfl
  have hz : 'z'.val.toNat = 122 := rfl
  have h9 : '9'.val.toNat = 57 := rfl
  have hlast : (127 : UInt32).toNat = 127 := rfl
  rcases h with h | rfl | rfl | rfl
  · omega
  all_goals decide

end Characters

section Runs

/-- The runs of a text from left to right, each as long as it can be. -/
inductive Runs : List Char → List (List Char) → Prop where
  | nil : Runs [] []
  | skip {c : Char} {cs : List Char} {runs : List (List Char)} (stray : ¬ Alnum c) (more : Runs cs runs) :
      Runs (c :: cs) runs
  | run {c : Char} {cs rest : List Char} {runs : List (List Char)} (head : Alnum c) (tail : ∀ d ∈ cs, InName d)
      (stop : ∀ d ∈ rest.head?, ¬ InName d) (more : Runs rest runs) : Runs (c :: (cs ++ rest)) ((c :: cs) :: runs)

variable {c : Char} {cs rest : List Char} {runs runs' : List (List Char)}

/-- Besides its runs a text has a beginning that could go on with a run, and the runs behind it. -/
theorem exists_runs_and_behind (cs : List Char) : (∃ runs, Runs cs runs) ∧
    ∃ run rest runs, cs = run ++ rest ∧ (∀ d ∈ run, InName d) ∧ (∀ d ∈ rest.head?, ¬ InName d) ∧ Runs rest runs := by
  induction cs with
  | nil => exact ⟨⟨[], .nil⟩, [], [], [], rfl, nofun, nofun, .nil⟩
  | cons c cs ih =>
    obtain ⟨⟨runs, hruns⟩, run, rest, behind, rfl, tail, stop, hbehind⟩ := ih
    have hall : ∃ runs, Runs (c :: (run ++ rest)) runs := by
      by_cases hc : Alnum c
      · exact ⟨_, .run hc tail stop hbehind⟩
      · exact ⟨_, .skip hc hruns⟩
    refine ⟨hall, ?_⟩
    by_cases hc : InName c
    · exact ⟨c :: run, rest, behind, rfl, List.forall_mem_cons.2 ⟨hc, tail⟩, stop, hbehind⟩
    · obtain ⟨runs, hruns⟩ := hall
      exact ⟨[], _, runs, rfl, nofun, by simpa using hc, hruns⟩

theorem takeWhile_run (tail : ∀ d ∈ cs, InName d) (stop : ∀ d ∈ rest.head?, ¬ InName d) :
    (cs ++ rest).takeWhile (InName ·) = cs := by
  rw [List.takeWhile_append_of_pos (by simpa using tail)]
  cases rest with
  | nil => simp
  | cons d rest =>
    have hd : ¬ InName d := stop d rfl
    simp [hd]

theorem runs_unique (h : Runs cs runs) (h' : Runs cs runs') : runs' = runs := by
  induction h generalizing runs' with
  | nil =>
    cases h'
    rfl
  | skip stray _ ih =>
    cases h' with
    | skip _ more => exact ih more
    | run head => exact absurd head stray
  | @run c cs rest runs head tail stop _ ih =>
    generalize htext : c :: (cs ++ rest) = text at h'
    cases h' with
    | nil => cases htext
    | skip stray =>
      cases htext
      exact absurd head stray
    | @run _ cs' rest' _ _ tail' stop' more' =>
      injection htext with hc happend
      have hcs : cs = cs' := by rw [← takeWhile_run tail stop, happend, takeWhile_run tail' stop']
      subst hc hcs
      rw [List.append_cancel_left happend] at ih
      rw [ih more']

theorem flatten_eq_nil_iff (h : Runs cs runs) : runs.flatten = [] ↔ ∀ c ∈ cs, ¬ Alnum c := by
  induction h with
  | nil => simp
  | skip stray _ ih => simpa [stray] using ih
  | run head => simp [head]

end Runs

section Keep
variable {cs rest : List Char} {runs : List (List Char)}

theorem keepRuns_append (h : ∀ d ∈ cs, InName d) (rest : List Char) :
    keepRuns true (cs ++ rest) = cs ++ keepRuns true rest := by
  induction cs with
  | nil => rfl
  | cons c cs ih =>
    obtain ⟨hc, hcs⟩ := List.forall_mem_cons.1 h
    rw [InName, ← isAlphanum_iff, ← isJoint_iff] at hc
    rw [List.cons_append, keepRuns, ih hcs]
    rcases hc with hc | hc <;> simp [hc]

/-- Behind a run it does not matter that there was one. -/
theorem keepRuns_of_stop (h : ∀ d ∈ rest.head?, ¬ InName d) : keepRuns true rest = keepRuns false rest := by
  cases rest with
  | nil => rfl
  | cons c rest =>
    have hc : ¬ InName c := h c rfl
    rw [InName, ← isAlphanum_iff, ← isJoint_iff, not_or] at hc
    simp [keepRuns, hc]

theorem keepRuns_eq_flatten (h : Runs cs runs) : keepRuns false cs = runs.flatten := by
  induction h with
  | nil => rfl
  | skip stray _ ih =>
    rw [← isAlphanum_iff] at stray
    simpa [keepRuns, stray] using ih
  | run head tail stop _ ih =>
    rw [keepRuns, if_pos (isAlphanum_iff.2 head), keepRuns_append tail, keepRuns_of_stop stop, ih]
    rfl

theorem inName_of_mem_flatten (h : Runs cs runs) : ∀ c ∈ runs.flatten, InName c := by
  induction h with
  | nil => exact nofun
  | skip _ _ ih => exact ih
  | run head tail _ _ ih =>
    intro d hd
    rcases List.mem_append.1 hd with hd | hd
    · rcases List.mem_cons.1 hd with rfl | hd
      · exact .inl head
      · exact tail d hd
    · exact ih d hd

theorem alnum_of_head_flatten (h : Runs cs runs) : ∀ c ∈ runs.flatten.head?, Alnum c := by
  induction h with
  | nil => exact nofun
  | skip _ _ ih => exact ih
  | run head =>
    intro d hd
    cases hd
    exact head

end Keep

section Legal

/-- What can be the name of an environment. -/
structure Legal (name : List Char) : Prop where
  ne_nil : name ≠ []
  length_le : name.length ≤ 30
  head : ∀ c ∈ name.head?, Alnum c
  chars : ∀ c ∈ name, InName c

variable {cs : List Char} {runs : List (List Char)} {name dir : String}

theorem legal_take (h : Runs cs runs) (hne : runs.flatten ≠ []) : Legal (runs.flatten.take maxLength) where
  ne_nil := by simpa [maxLength] using hne
  length_le := List.length_take_le _ _
  head := by
    rw [List.head?_take, if_neg (by decide)]
    exact alnum_of_head_flatten h
  chars := by
    intro c hc
    exact inName_of_mem_flatten h c (List.mem_of_mem_take hc)

theorem toList_base (dir : String) : (base dir).toList = (Path.lastChars dir.toList).getD [] := by
  unfold base Path.last
  cases Path.lastChars dir.toList <;> simp

theorem ofDirectory_of_flatten_nil (h : Runs (base dir).toList runs) (hnil : runs.flatten = []) :
    ofDirectory dir = .error (.illegalName (base dir)) := by
  have hnone : ofDirectory? dir = none := by simp [ofDirectory?, keepRuns_eq_flatten h, hnil]
  delta ofDirectory
  rw [hnone]

theorem ofDirectory_of_flatten_ne_nil (h : Runs (base dir).toList runs) (hne : runs.flatten ≠ []) :
    ofDirectory dir = .ok (String.ofList (runs.flatten.take maxLength)) := by
  have hsome : ofDirectory? dir = some (String.ofList (runs.flatten.take maxLength)) := by
    simp [ofDirectory?, keepRuns_eq_flatten h, hne]
  delta ofDirectory
  rw [hsome]

/-- A name is the only part of itself as a path, and its only run. -/
theorem ofDirectory_of_legal (h : Legal name.toList) : ofDirectory name = .ok name := by
  obtain ⟨c, cs, hname⟩ := List.exists_cons_of_ne_nil h.ne_nil
  have hc : Alnum c := h.head c (by rw [hname]; rfl)
  have hlast : Path.lastChars name.toList = some name.toList := by
    apply Path.lastChars_self _ h.ne_nil
    · rw [hname]
      simp [ne_dot_of_alnum hc]
    · rw [hname]
      simp [ne_dot_of_alnum hc]
    · intro hslash
      exact ne_slash_of_inName (h.chars _ hslash) rfl
  have hbase : (base name).toList = name.toList := by rw [toList_base, hlast, Option.getD_some]
  have hruns : Runs (base name).toList [name.toList] := by
    have hchars := h.chars
    rw [hname, List.forall_mem_cons] at hchars
    have hrun : Runs (c :: (cs ++ [])) [c :: cs] := .run hc hchars.2 nofun .nil
    rw [List.append_nil] at hrun
    rwa [hbase, hname]
  have hlength : name.toList.length ≤ maxLength := h.length_le
  rw [ofDirectory_of_flatten_ne_nil hruns (by simpa using h.ne_nil), List.flatten_singleton,
    List.take_of_length_le hlength, String.ofList_toList]

end Legal

section Cut

/-- A text up to some number of its bytes; there is none if that is inside a character. -/
def cutBytes? : Nat → List Char → Option (List Char)
  | 0, _ => some []
  | _, [] => some []
  | n, c :: cs => if c.utf8Size ≤ n then (cutBytes? (n - c.utf8Size) cs).map (c :: ·) else none

theorem cutBytes?_eq_take {cs : List Char} (h : ∀ c ∈ cs, InName c) (n : Nat) : cutBytes? n cs = some (cs.take n) := by
  induction cs generalizing n with
  | nil => cases n <;> rfl
  | cons c cs ih =>
    obtain ⟨hc, hcs⟩ := List.forall_mem_cons.1 h
    cases n with
    | zero => rfl
    | succ n => simp [cutBytes?, utf8Size_of_inName hc, ih hcs]

end Cut

/-- The last part of a path in bytes is what remains of it in the text. -/
theorem base_decode {path : List UInt8} {segments : List (List UInt8)}
    (h : Path.Segmented (Utf8.byte '/') path segments) :
    base (Utf8.decode path) = Utf8.decode ((Path.lastPart (Utf8.byte '.') segments).getD []) := by
  apply String.toList_injective
  rw [toList_base, Utf8.decode, Utf8.decode, String.toList_ofList, String.toList_ofList, Utf8.lastChars_decodeFrom h]
  cases Path.lastPart (Utf8.byte '.') segments <;> rfl

/-- The name of an environment consists of the runs of its directory's name up to 30 characters, which are as many
bytes. There is none for a directory without letters and digits. -/
theorem ofDirectory_runs (dir : String) :
    (∃ segments, Path.Segmented '/' dir.toList segments ∧
      base dir = String.ofList ((Path.lastPart '.' segments).getD [])) ∧
    (∀ path, dir = Utf8.decode path → ∃ segments, Path.Segmented (Utf8.byte '/') path segments ∧
      base dir = Utf8.decode ((Path.lastPart (Utf8.byte '.') segments).getD [])) ∧
    ∃ runs, (∀ rs, Runs (base dir).toList rs ↔ rs = runs) ∧
      ((∀ c ∈ (base dir).toList, ¬ Alnum c) ∧ ofDirectory dir = .error (.illegalName (base dir)) ∨
        (∃ c ∈ (base dir).toList, Alnum c) ∧ ∃ name, ofDirectory dir = .ok name ∧
          name.toList = runs.flatten.take 30 ∧ cutBytes? 30 runs.flatten = some name.toList ∧
          Legal name.toList ∧ ofDirectory name = .ok name) := by
  obtain ⟨runs, hruns⟩ := (exists_runs_and_behind (base dir).toList).1
  refine ⟨⟨_, Path.segmented_iff.2 rfl, ?_⟩, ?_, runs, ?_, ?_⟩
  · apply String.toList_injective
    rw [toList_base, Path.lastChars_eq (Path.segmented_iff.2 rfl), String.toList_ofList]
  · intro path hpath
    subst hpath
    obtain ⟨segments, h⟩ := Path.exists_segmented (Utf8.byte '/') path
    exact ⟨segments, h, base_decode h⟩
  · intro rs
    constructor
    · intro h
      exact runs_unique hruns h
    · intro h
      rwa [h]
  · by_cases hnil : runs.flatten = []
    · exact .inl ⟨(flatten_eq_nil_iff hruns).1 hnil, ofDirectory_of_flatten_nil hruns hnil⟩
    · have hlegal : Legal (String.ofList (runs.flatten.take maxLength)).toList := by
        rw [String.toList_ofList]
        exact legal_take hruns hnil
      have hcut : cutBytes? 30 runs.flatten = some (runs.flatten.take maxLength) :=
        cutBytes?_eq_take (inName_of_mem_flatten hruns) 30
      refine .inr ⟨?_, _, ofDirectory_of_flatten_ne_nil hruns hnil, String.toList_ofList, ?_, hlegal,
        ofDirectory_of_legal hlegal⟩
      · rw [flatten_eq_nil_iff hruns] at hnil
        simpa using hnil
      · rw [hcut, String.toList_ofList]

section Workdir
variable {buildContext : String} {s : List Char}

theorem workdir_of_some (h : Path.lastChars buildContext.toList = some s) :
    workdir buildContext = "/home/envd/" ++ String.ofList s := by
  rw [workdir, Path.last, h]
  rfl

theorem workdir_of_none (h : Path.lastChars buildContext.toList = none) : workdir buildContext = "/home/envd" := by
  rw [workdir, Path.last, h]
  rfl

/-- The working directory by the last segment that counts. -/
theorem workdir_of_segmented {segments : List (List Char)} (h : Path.Segmented '/' buildContext.toList segments) :
    (∃ s, (Path.counted '.' segments).getLast? = some s ∧ s ≠ ['.', '.'] ∧
        workdir buildContext = "/home/envd/" ++ String.ofList s) ∨
      (∀ s, (Path.counted '.' segments).getLast? = some s → s = ['.', '.']) ∧ workdir buildContext = "/home/envd" := by
  have hlast := Path.lastChars_eq h
  rw [Path.lastPart] at hlast
  cases hcounted : (Path.counted '.' segments).getLast? with
  | none =>
    rw [hcounted] at hlast
    exact .inr ⟨by simp, workdir_of_none hlast⟩
  | some s =>
    rw [hcounted] at hlast
    by_cases hparent : s = ['.', '.']
    · rw [Option.filter_some_neg (by simpa using hparent)] at hlast
      refine .inr ⟨?_, workdir_of_none hlast⟩
      intro t ht
      cases ht
      exact hparent
    · rw [Option.filter_some_pos (by simpa using hparent)] at hlast
      exact .inl ⟨s, rfl, hparent, workdir_of_some hlast⟩

/-- The working directory is home, or a directory in it that is neither home itself nor the parent of home. -/
theorem workdir_at_home (buildContext : String) :
    workdir buildContext = "/home/envd" ∨
      ∃ s : String, workdir buildContext = "/home/envd/" ++ s ∧ '/' ∉ s.toList ∧ s ≠ "" ∧ s ≠ "." ∧ s ≠ ".." := by
  cases h : Path.lastChars buildContext.toList with
  | none => exact .inl (workdir_of_none h)
  | some s =>
    obtain ⟨hslash, hne, hdot, hparent⟩ := Path.of_lastChars h
    refine .inr ⟨String.ofList s, workdir_of_some h, ?_, ?_, ?_, ?_⟩
    · simpa using hslash
    all_goals
      intro hs
      have hchars := congrArg String.toList hs
      rw [String.toList_ofList] at hchars
      contradiction

end Workdir

end DevEnv.Naming
