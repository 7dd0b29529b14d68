import DevEnv.Host
import Mathlib.Data.List.Forall2

/-! Runs as lists of questions with their answers. Whoever answers, a run goes along one of these lists,
so what holds of all of them holds of every run. -/
namespace DevEnv

/-- A question and the answer to it. -/
structure Exchange (I : Interface) where
  query : I.Query
  answer : I.Answer query

namespace Program
variable {I J : Interface} {α β σ : Type}

/-- The run of a program in which these questions are asked and answered; without a result if it is cut off. -/
inductive Runs : Program I α → List (Exchange I) → Option α → Prop
  | done (a : α) : Runs (done a) [] (some a)
  | unfinished : Runs unfinished [] none
  | ask {q : I.Query} {next : I.Answer q → Program I α} {r : I.Answer q} {es : List (Exchange I)} {res : Option α}
      (h : Runs (next r) es res) : Runs (ask q next) (⟨q, r⟩ :: es) res

theorem runs_done {a : α} {es : List (Exchange I)} {res : Option α} :
    Runs (done a) es res ↔ es = [] ∧ res = some a := by
  constructor
  · intro h
    cases h
    exact ⟨rfl, rfl⟩
  · rintro ⟨rfl, rfl⟩
    exact .done a

theorem runs_unfinished {es : List (Exchange I)} {res : Option α} :
    Runs unfinished es res ↔ es = [] ∧ res = none := by
  constructor
  · intro h
    cases h
    exact ⟨rfl, rfl⟩
  · rintro ⟨rfl, rfl⟩
    exact .unfinished

theorem runs_ask {q : I.Query} {next : I.Answer q → Program I α} {es : List (Exchange I)} {res : Option α} :
    Runs (ask q next) es res ↔ ∃ r rest, es = ⟨q, r⟩ :: rest ∧ Runs (next r) rest res := by
  constructor
  · intro h
    cases h with
    | ask h => exact ⟨_, _, rfl, h⟩
  · rintro ⟨r, rest, rfl, h⟩
    exact .ask h

/-- Nothing is asked for what is made of the result. -/
theorem runs_bind_done {p : Program I α} {f : α → β} {es : List (Exchange I)} {res : Option β} :
    Runs (p.bind fun a => done (f a)) es res ↔ ∃ r, Runs p es r ∧ res = r.map f := by
  induction p generalizing es with
  | done a =>
    constructor
    · intro h
      obtain ⟨rfl, rfl⟩ := runs_done.1 h
      exact ⟨some a, .done a, rfl⟩
    · rintro ⟨r, h, rfl⟩
      obtain ⟨rfl, rfl⟩ := runs_done.1 h
      exact .done (f a)
  | ask q next ih =>
    constructor
    · intro h
      obtain ⟨r, rest, rfl, hrest⟩ := runs_ask.1 h
      obtain ⟨x, hx, rfl⟩ := (ih r).1 hrest
      exact ⟨x, .ask hx, rfl⟩
    · rintro ⟨x, h, rfl⟩
      obtain ⟨r, rest, rfl, hrest⟩ := runs_ask.1 h
      exact .ask ((ih r).2 ⟨x, hrest, rfl⟩)
  | unfinished =>
    constructor
    · intro h
      obtain ⟨rfl, rfl⟩ := runs_unfinished.1 h
      exact ⟨none, .unfinished, rfl⟩
    · rintro ⟨r, h, rfl⟩
      obtain ⟨rfl, rfl⟩ := runs_unfinished.1 h
      exact .unfinished

/-- Where one question stands in the place of each, a run asks them one for one. -/
theorem runs_interpret {f : (q : I.Query) → Program J (I.Answer q)} {R : Exchange I → Exchange J → Prop}
    (hf : ∀ q, ∃ q', ∃ answer : J.Answer q' → I.Answer q, f q = ask q' (fun r => done (answer r)) ∧
      ∀ r, R ⟨q, answer r⟩ ⟨q', r⟩)
    {p : Program I α} {es : List (Exchange J)} {res : Option α} (h : Runs (p.interpret f) es res) :
    ∃ ws, Runs p ws res ∧ List.Forall₂ R ws es := by
  induction p generalizing es with
  | done a =>
    obtain ⟨rfl, rfl⟩ := runs_done.1 h
    exact ⟨[], .done a, .nil⟩
  | ask q next ih =>
    obtain ⟨q', answer, hq, hrel⟩ := hf q
    rw [interpret, hq] at h
    obtain ⟨r, rest, rfl, hrest⟩ := runs_ask.1 h
    obtain ⟨ws, hws, hserved⟩ := ih (answer r) hrest
    exact ⟨⟨q, answer r⟩ :: ws, .ask hws, .cons (hrel r) hserved⟩
  | unfinished =>
    obtain ⟨rfl, rfl⟩ := runs_unfinished.1 h
    exact ⟨[], .unfinished, .nil⟩

end Program

namespace Action
variable {I : Interface} {α β : Type}

/-- The run of an action in which these questions are asked and answered. -/
def Runs (act : Action I α) (es : List (Exchange (Host.interface.sum I))) (res : Option (Except Error α)) : Prop :=
  act.run.Runs es res

theorem run_host_bind (q : Host.Query) (f : q.Answer → Action I α) :
    (host q >>= f).run = .ask (.inl q) fun r => (f r).run := rfl

theorem run_bind (x : Action I α) (f : α → Action I β) : (x >>= f).run = x.run.bind fun
    | .ok a => (f a).run
    | .error e => .done (.error e) := by
  refine congrArg (Program.bind _) (funext fun r => ?_)
  cases r <;> rfl

variable {es : List (Exchange (Host.interface.sum I))} {res : Option (Except Error α)}

theorem runs_host_bind {q : Host.Query} {f : q.Answer → Action I α} :
    Runs (host q >>= f) es res ↔ ∃ r rest, es = ⟨.inl q, r⟩ :: rest ∧ Runs (f r) rest res := Program.runs_ask

end Action
end DevEnv
