/-! Programs that ask questions of their surroundings, as trees with a branch for every answer.
A program does not say who answers, so the same one runs against any surroundings. -/
namespace DevEnv

/-- The questions a program may ask and what each is answered with. -/
structure Interface where
  Query : Type
  Answer : Query → Type

/-- The questions of two interfaces together. -/
def Interface.sum (I J : Interface) : Interface := ⟨I.Query ⊕ J.Query, Sum.elim I.Answer J.Answer⟩

/-- A program over an interface with a result. -/
inductive Program (I : Interface) (α : Type) where
  | done (a : α)
  | ask (q : I.Query) (next : I.Answer q → Program I α)
  /-- A run that was cut off at its bound on rounds. -/
  | unfinished

namespace Program
variable {I J : Interface} {α β : Type}

def bind : Program I α → (α → Program I β) → Program I β
  | done a, f => f a
  | ask q next, f => ask q fun r => (next r).bind f
  | unfinished, _ => unfinished

instance : Monad (Program I) where
  pure := done
  bind := bind

theorem bind_done (p : Program I α) : p.bind done = p := by
  induction p with
  | done a => rfl
  | ask q next ih => exact congrArg (ask q) (funext ih)
  | unfinished => rfl

theorem bind_assoc {γ : Type} (p : Program I α) (f : α → Program I β) (g : β → Program I γ) :
    (p.bind f).bind g = p.bind fun a => (f a).bind g := by
  induction p with
  | done a => rfl
  | ask q next ih => exact congrArg (ask q) (funext ih)
  | unfinished => rfl

instance : LawfulMonad (Program I) := .mk' _ bind_done (fun _ _ => rfl) bind_assoc

/-- The program that asks one question and results in the answer. -/
def query (q : I.Query) : Program I (I.Answer q) := ask q done

/-- Puts a program in the place of every question. -/
def interpret (f : (q : I.Query) → Program J (I.Answer q)) : Program I α → Program J α
  | done a => done a
  | ask q next => (f q).bind fun r => (next r).interpret f
  | unfinished => unfinished

/-- Puts a program in the place of every question and hands a state from one to the next. -/
def interpretWith {σ : Type} (f : (q : I.Query) → σ → Program J (I.Answer q × σ)) :
    Program I α → σ → Program J (α × σ)
  | done a, s => done (a, s)
  | ask q next, s => (f q s).bind fun r => (next r.1).interpretWith f r.2
  | unfinished, _ => unfinished

/-- Runs a program against surroundings with a state; there is no result if the run was cut off. -/
def run {σ : Type} (answer : (q : I.Query) → σ → I.Answer q × σ) : Program I α → σ → Option α × σ
  | done a, s => (some a, s)
  | ask q next, s => (next (answer q s).1).run answer (answer q s).2
  | unfinished, s => (none, s)

/-- Runs a program with the effects of the answers. -/
def perform {m : Type → Type} [Monad m] (answer : (q : I.Query) → m (I.Answer q)) : Program I α → m (Option α)
  | done a => return some a
  | ask q next => do (next (← answer q)).perform answer
  | unfinished => return none

end Program
end DevEnv
