import DevEnv.Context.File
import Mathlib.Data.List.Nodup

/-! Sessions on the contexts of a user. They begin with what a file has, or with the initial contexts, and go on by
adding contexts and by changing which one is in use. The one in use is known throughout, and a name never comes to lead
to another context. If two contexts have one name then they had it in the file. -/
namespace DevEnv.Contexts

/-- What can be done to contexts. -/
inductive Call where
  | add (c : Context)
  | use (name : String)

namespace Call

def perform (cs : Contexts) : Call → Except Error Contexts
  | add c => cs.add c
  | use name => cs.use name

/-- What a call answers, and the contexts after it. -/
def answer (call : Call) (cs : Contexts) : Except Error Unit × Contexts :=
  match call.perform cs with
  | .ok cs' => (.ok (), cs')
  | .error e => (.error e, cs)

end Call

/-- The contexts after a session. -/
def after (calls : List Call) (cs : Contexts) : Contexts := calls.foldl (fun cs call => (call.answer cs).2) cs

/-- Contexts that a session can begin with, whatever was found in a file. -/
inductive Loaded : Contexts → Prop where
  | initial : Loaded initial
  | checked {found cs : Contexts} (h : found.check = .ok cs) : Loaded cs

/-- No two contexts have one name. -/
def Distinct (cs : Contexts) : Prop := (cs.contexts.map Context.name).Nodup

instance (cs : Contexts) : Decidable cs.Distinct := inferInstanceAs (Decidable (cs.contexts.map Context.name).Nodup)

variable {cs cs' cs'' : Contexts} {c d : Context} {name : String}

section Get

theorem get_eq_ok_iff : cs.get name = .ok c ↔ cs.contexts.find? (·.name = name) = some c := by
  unfold get
  cases cs.contexts.find? (·.name = name) <;> simp

theorem get_eq_error_iff {e : Error} :
    cs.get name = .error e ↔ e = .unknown name ∧ ∀ d ∈ cs.contexts, d.name ≠ name := by
  have hnone : cs.contexts.find? (·.name = name) = none ↔ ∀ d ∈ cs.contexts, d.name ≠ name := by simp
  rw [← hnone, get]
  cases cs.contexts.find? (·.name = name) <;> simp [eq_comm]

theorem mem_of_get (h : cs.get name = .ok c) : c ∈ cs.contexts := List.mem_of_find?_eq_some (get_eq_ok_iff.1 h)

theorem name_of_get (h : cs.get name = .ok c) : c.name = name := by simpa using List.find?_some (get_eq_ok_iff.1 h)

theorem exists_get_iff : (∃ c, cs.get name = .ok c) ↔ ∃ d ∈ cs.contexts, d.name = name := by
  constructor
  · intro ⟨c, hc⟩
    exact ⟨c, mem_of_get hc, name_of_get hc⟩
  · intro ⟨d, hd, hname⟩
    cases hg : cs.get name with
    | ok c => exact ⟨c, rfl⟩
    | error e => exact absurd hname ((get_eq_error_iff.1 hg).2 d hd)

/-- Where names are distinct every context is found under its own. -/
theorem Distinct.get (h : cs.Distinct) (hc : c ∈ cs.contexts) : cs.get c.name = .ok c := by
  obtain ⟨d, hd⟩ := exists_get_iff.2 ⟨c, hc, rfl⟩
  have hsame : d = c := List.inj_on_of_nodup_map h (mem_of_get hd) hc (name_of_get hd)
  rwa [hsame] at hd

end Get

section Load

/-- A file is accepted if the context in use is among those it has, whatever else they are. -/
theorem check_eq_ok_iff : cs.check = .ok cs' ↔ cs' = cs ∧ ∃ c ∈ cs.contexts, c.name = cs.current := by
  rw [← exists_get_iff, check, inUse]
  cases cs.get cs.current <;> simp [bind, Except.bind, pure, Except.pure, eq_comm]

theorem loaded_iff : Loaded cs ↔ ∃ c ∈ cs.contexts, c.name = cs.current := by
  constructor
  · intro h
    cases h with
    | initial => exact ⟨_, List.mem_singleton_self _, rfl⟩
    | checked h =>
      obtain ⟨rfl, hknown⟩ := check_eq_ok_iff.1 h
      exact hknown
  · intro h
    exact .checked (check_eq_ok_iff.2 ⟨rfl, h⟩)

/-- What a file is read as is loaded, and so is what stands for a missing one. -/
theorem loaded_of_ofFile {found : File.Contents} (h : ofFile found = .ok cs) : Loaded cs := by
  unfold ofFile at h
  split at h
  · unfold ofText at h
    split at h
    · exact .checked h
    · cases h
  · cases h
    exact .initial
  · cases h

end Load

section Answers

/-- Contexts are added under a name that is new. -/
theorem add_cases (cs : Contexts) (c : Context) :
    (∀ d ∈ cs.contexts, d.name ≠ c.name) ∧
        (Call.add c).answer cs = (.ok (), { cs with contexts := cs.contexts ++ [c] }) ∨
      (∃ d ∈ cs.contexts, d.name = c.name) ∧ (Call.add c).answer cs = (.error (.duplicate c.name), cs) := by
  simp only [Call.answer, Call.perform, add]
  by_cases hc : cs.contexts.any (·.name = c.name)
  · rw [if_pos hc]
    exact .inr ⟨by simpa using hc, rfl⟩
  · rw [if_neg hc]
    exact .inl ⟨by simpa using hc, rfl⟩

/-- The context in use is changed to one that is known. -/
theorem use_cases (cs : Contexts) (name : String) :
    (∃ d ∈ cs.contexts, d.name = name) ∧ (Call.use name).answer cs = (.ok (), { cs with current := name }) ∨
      (∀ d ∈ cs.contexts, d.name ≠ name) ∧ (Call.use name).answer cs = (.error (.unknown name), cs) := by
  simp only [Call.answer, Call.perform, use]
  cases hg : cs.get name with
  | ok c => exact .inl ⟨exists_get_iff.1 ⟨c, hg⟩, rfl⟩
  | error e =>
    obtain ⟨rfl, hnew⟩ := get_eq_error_iff.1 hg
    exact .inr ⟨hnew, rfl⟩

end Answers

/-- Contexts to which others were added, each with a name of its own that was new. -/
structure Extends (cs cs' : Contexts) (added : List Context) : Prop where
  contexts : cs'.contexts = cs.contexts ++ added
  distinct : (added.map Context.name).Nodup
  new : ∀ a ∈ added, ∀ d ∈ cs.contexts, d.name ≠ a.name

namespace Extends
variable {added more : List Context}

theorem refl (h : cs'.contexts = cs.contexts) : Extends cs cs' [] := ⟨by simp [h], by simp, nofun⟩

theorem trans (h : Extends cs cs' added) (h' : Extends cs' cs'' more) : Extends cs cs'' (added ++ more) where
  contexts := by rw [h'.contexts, h.contexts, List.append_assoc]
  distinct := by
    rw [List.map_append, List.nodup_append]
    refine ⟨h.distinct, h'.distinct, ?_⟩
    intro x hx y hy
    obtain ⟨a, ha, rfl⟩ := List.mem_map.1 hx
    obtain ⟨b, hb, rfl⟩ := List.mem_map.1 hy
    apply h'.new b hb
    rw [h.contexts]
    exact List.mem_append_right _ ha
  new := by
    intro a ha d hd
    rcases List.mem_append.1 ha with ha | ha
    · exact h.new a ha d hd
    · apply h'.new a ha
      rw [h.contexts]
      exact List.mem_append_left _ hd

theorem distinct_iff (h : Extends cs cs' added) : cs'.Distinct ↔ cs.Distinct := by
  unfold Distinct
  rw [h.contexts, List.map_append, List.nodup_append]
  constructor
  · intro hd
    exact hd.1
  · intro hd
    refine ⟨hd, h.distinct, ?_⟩
    intro x hx y hy
    obtain ⟨d, hmem, rfl⟩ := List.mem_map.1 hx
    obtain ⟨a, ha, rfl⟩ := List.mem_map.1 hy
    exact h.new a ha d hmem

/-- A name that was known still leads where it led. -/
theorem get_kept (h : Extends cs cs' added) (hc : cs.get name = .ok c) : cs'.get name = .ok c := by
  rw [get_eq_ok_iff] at hc ⊢
  rw [h.contexts, List.find?_append, hc]
  rfl

/-- What was added is found under its name. -/
theorem get_added (h : Extends cs cs' added) (hc : c ∈ added) : cs'.get c.name = .ok c := by
  have hnone : cs.contexts.find? (·.name = c.name) = none := by simpa using h.new c hc
  have hadded : (⟨cs.current, added⟩ : Contexts).get c.name = .ok c := Distinct.get h.distinct hc
  rw [get_eq_ok_iff] at hadded ⊢
  rw [h.contexts, List.find?_append, hnone, Option.none_or]
  exact hadded

end Extends

theorem extends_answer (cs : Contexts) (call : Call) : ∃ added, Extends cs (call.answer cs).2 added := by
  cases call with
  | add c =>
    rcases add_cases cs c with ⟨hnew, h⟩ | ⟨-, h⟩ <;> rw [h]
    · exact ⟨[c], rfl, by simp, by simpa using hnew⟩
    · exact ⟨[], .refl rfl⟩
  | use name =>
    rcases use_cases cs name with ⟨-, h⟩ | ⟨-, h⟩ <;> rw [h] <;> exact ⟨[], .refl rfl⟩

/-- A session does nothing to the contexts but to add some. -/
theorem extends_after (calls : List Call) (cs : Contexts) : ∃ added, Extends cs (after calls cs) added := by
  induction calls generalizing cs with
  | nil => exact ⟨[], .refl rfl⟩
  | cons call calls ih =>
    obtain ⟨added, hadded⟩ := extends_answer cs call
    obtain ⟨more, hmore⟩ := ih (call.answer cs).2
    exact ⟨added ++ more, hadded.trans hmore⟩

/-- What holds of contexts at every point of a session. -/
structure Consistent (cs : Contexts) : Prop where
  inUse_known : ∃ c, cs.inUse = .ok c
  refused : ∀ (call : Call) e, (call.answer cs).1 = .error e → (call.answer cs).2 = cs
  kept : ∀ c name d, cs.get name = .ok d → ((Call.add c).answer cs).2.get name = .ok d
  added : ∀ c, ((Call.add c).answer cs).1 = .ok () → ((Call.add c).answer cs).2.get c.name = .ok c
  used : ∀ name, ((Call.use name).answer cs).1 = .ok () →
    ((Call.use name).answer cs).2.inUse = ((Call.use name).answer cs).2.get name
  /-- An addition is refused for a name that is known, and a change of use for one that is not. -/
  add_ok_iff : ∀ c, ((Call.add c).answer cs).1 = .ok () ↔ ∀ d, cs.get c.name ≠ .ok d
  use_ok_iff : ∀ name, ((Call.use name).answer cs).1 = .ok () ↔ ∃ c, cs.get name = .ok c

/-- Where the context in use is known it stays so. -/
theorem loaded_answer (h : Loaded cs) (call : Call) : Loaded (call.answer cs).2 := by
  rw [loaded_iff] at h ⊢
  obtain ⟨c, hc, hname⟩ := h
  cases call with
  | add d =>
    rcases add_cases cs d with ⟨-, h⟩ | ⟨-, h⟩ <;> rw [h]
    · exact ⟨c, List.mem_append_left _ hc, hname⟩
    · exact ⟨c, hc, hname⟩
  | use name =>
    rcases use_cases cs name with ⟨hfound, h⟩ | ⟨-, h⟩ <;> rw [h]
    · exact hfound
    · exact ⟨c, hc, hname⟩

theorem loaded_after (h : Loaded cs) (calls : List Call) : Loaded (after calls cs) := by
  induction calls generalizing cs with
  | nil => exact h
  | cons call calls ih => exact ih (loaded_answer h call)

theorem Loaded.consistent (h : Loaded cs) : Consistent cs where
  inUse_known := exists_get_iff.2 (loaded_iff.1 h)
  refused call e he := by
    cases call with
    | add c =>
      rcases add_cases cs c with ⟨-, h⟩ | ⟨-, h⟩ <;> rw [h] at he ⊢
      cases he
    | use name =>
      rcases use_cases cs name with ⟨-, h⟩ | ⟨-, h⟩ <;> rw [h] at he ⊢
      cases he
  kept c name d hd := by
    obtain ⟨added, h⟩ := extends_answer cs (.add c)
    exact h.get_kept hd
  added c hc := by
    rcases add_cases cs c with ⟨hnew, h⟩ | ⟨-, h⟩ <;> rw [h] at hc ⊢
    · have hextends : Extends cs { cs with contexts := cs.contexts ++ [c] } [c] := ⟨rfl, by simp, by simpa using hnew⟩
      exact hextends.get_added (List.mem_singleton_self c)
    · cases hc
  used name hn := by
    rcases use_cases cs name with ⟨-, h⟩ | ⟨-, h⟩ <;> rw [h] at hn ⊢
    · rfl
    · cases hn
  add_ok_iff c := by
    have hknown : (∀ d, cs.get c.name ≠ .ok d) ↔ ¬ ∃ d ∈ cs.contexts, d.name = c.name := by
      rw [← exists_get_iff, not_exists]
    rw [hknown]
    rcases add_cases cs c with ⟨hnew, h⟩ | ⟨hfound, h⟩ <;> rw [h]
    · exact iff_of_true rfl fun ⟨d, hd, hname⟩ => hnew d hd hname
    · exact iff_of_false nofun (not_not_intro hfound)
  use_ok_iff name := by
    rw [exists_get_iff]
    rcases use_cases cs name with ⟨hfound, h⟩ | ⟨hnew, h⟩ <;> rw [h]
    · exact iff_of_true rfl hfound
    · exact iff_of_false nofun fun ⟨d, hd, hname⟩ => hnew d hd hname

/-- Whatever is added and used, allowed or not, contexts stay consistent, and a name leads where it led at first. -/
theorem session_consistent (h : Loaded cs) (calls : List Call) :
    Consistent (after calls cs) ∧ ∀ name c, cs.get name = .ok c → (after calls cs).get name = .ok c := by
  refine ⟨(loaded_after h calls).consistent, ?_⟩
  intro name c hc
  obtain ⟨added, hadded⟩ := extends_after calls cs
  exact hadded.get_kept hc

/-- A file with two servers under one name, of which only the first is ever reached. -/
def moved : Contexts :=
  ⟨"prod", [{ name := "prod", runner := .server, address := some "http://old:8080" },
    { name := "prod", runner := .server, address := some "http://new:8080" }]⟩

theorem session_consistent_moved :
    let calls := [Call.add { name := "prod" }, .add { name := "lab" }, .use "nowhere", .use "lab"]
    Loaded moved ∧ Consistent (after calls moved) ∧
      after calls moved = ⟨"lab", moved.contexts ++ [{ name := "lab" }]⟩ := by
  have hcheck : moved.check = .ok moved := rfl
  have h : Loaded moved := .checked hcheck
  exact ⟨h, (session_consistent h _).1, by decide⟩

/-- A file is accepted for the context in use alone, and names stay as distinct as they are in it. A context is out of
reach if it was so in the file, behind another one of its name. -/
theorem session_distinct_iff (cs : Contexts) (calls : List Call) :
    (Loaded cs ↔ ∃ c ∈ cs.contexts, c.name = cs.current) ∧
      ((after calls cs).Distinct ↔ cs.Distinct) ∧
      ((after calls cs).Distinct → ∀ c ∈ (after calls cs).contexts, (after calls cs).get c.name = .ok c) ∧
      (∀ c ∈ (after calls cs).contexts,
        (after calls cs).get c.name = .ok c ↔ (c ∈ cs.contexts → cs.get c.name = .ok c)) ∧
      (after calls initial).Distinct := by
  obtain ⟨added, h⟩ := extends_after calls cs
  obtain ⟨more, hinitial⟩ := extends_after calls initial
  refine ⟨loaded_iff, h.distinct_iff, fun hd c hc => hd.get hc, fun c hc => ⟨fun hget hmem => ?_, fun hfound => ?_⟩,
    hinitial.distinct_iff.2 (List.nodup_singleton _)⟩
  · obtain ⟨d, hd⟩ := exists_get_iff.2 ⟨c, hmem, rfl⟩
    rwa [h.get_kept hd, ← hd] at hget
  · rw [h.contexts] at hc
    rcases List.mem_append.1 hc with hc | hc
    · exact h.get_kept (hfound hc)
    · exact h.get_added hc

/-- The name of two servers is accepted, and the second one is out of reach. -/
theorem repeated_name_accepted :
    let text := "current = \"prod\"\n" ++
      "[[context]]\nname = \"prod\"\nrunner = \"envd-server\"\nrunner_address = \"http://old:8080\"\n" ++
      "[[context]]\nname = \"prod\"\nrunner = \"envd-server\"\nrunner_address = \"http://new:8080\"\n"
    ofText text = .ok moved ∧ ¬ moved.Distinct ∧ ∃ c ∈ moved.contexts, moved.get c.name ≠ .ok c := by
  refine ⟨?_, ?_, ?_⟩
  · decide +kernel
  · decide
  · decide

end DevEnv.Contexts
