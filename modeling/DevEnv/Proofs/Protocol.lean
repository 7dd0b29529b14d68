import DevEnv.Proofs.Action

/-! Protocols say which questions may be asked and what state each answer leads to.
Whether a program keeps to one is seen from its tree alone, whoever answers. -/
namespace DevEnv

/-- The questions allowed in each state, and the state after an answer. -/
structure Protocol (I : Interface) (σ : Type) where
  allows : σ → I.Query → Prop
  next : σ → (q : I.Query) → I.Answer q → σ

namespace Protocol
variable {I : Interface} {σ : Type}

/-- The protocol that always allows the same questions. -/
def only (allows : I.Query → Prop) : Protocol I Unit := ⟨fun _ => allows, fun _ _ _ => ()⟩

/-- In a state the questions are allowed, and no answer to them leads away from it. -/
def Permits (P : Protocol I σ) (s : σ) (S : I.Query → Prop) : Prop :=
  ∀ q, S q → P.allows s q ∧ ∀ r, P.next s q r = s

theorem permits_only {S : I.Query → Prop} : (only S).Permits () S := fun _ hq => ⟨hq, fun _ => rfl⟩

/-- The protocol for programs that may also ask the host, at any time and whatever it answers. -/
def hosted (P : Protocol I σ) : Protocol (Host.interface.sum I) σ where
  allows s := Sum.elim (fun _ => True) (P.allows s)
  next s
    | .inl _ => fun _ => s
    | .inr q => P.next s q

end Protocol

namespace Program
variable {I : Interface} {α β σ τ : Type} {P : Protocol I σ}

/-- From a state on, the program asks only what is allowed, and its results satisfy a condition. -/
def Follows (P : Protocol I σ) (Q : α → σ → Prop) : Program I α → σ → Prop
  | done a, s => Q a s
  | ask q next, s => P.allows s q ∧ ∀ r, (next r).Follows P Q (P.next s q r)
  | unfinished, _ => True

theorem Follows.mono {Q R : α → σ → Prop} (hQ : ∀ a t, Q a t → R a t) {p : Program I α} {s : σ}
    (h : p.Follows P Q s) : p.Follows P R s := by
  induction p generalizing s with
  | done a => exact hQ a s h
  | ask q next ih => exact ⟨h.1, fun r => ih r (h.2 r)⟩
  | unfinished => trivial

theorem follows_bind {Q : β → σ → Prop} {p : Program I α} {f : α → Program I β} {s : σ} :
    (p.bind f).Follows P Q s ↔ p.Follows P (fun a => (f a).Follows P Q) s := by
  induction p generalizing s with
  | done a => exact Iff.rfl
  | ask q next ih => exact and_congr_right fun _ => forall_congr' fun r => ih r
  | unfinished => exact Iff.rfl

/-- A run keeps what every allowed step keeps, and its result satisfies the condition. -/
theorem Follows.run {Q : α → σ → Prop} {answer : (q : I.Query) → τ → I.Answer q × τ} (J : σ → τ → Prop)
    (step : ∀ s q w, P.allows s q → J s w → J (P.next s q (answer q w).1) (answer q w).2)
    {p : Program I α} {s : σ} {w : τ} (h : p.Follows P Q s) (hJ : J s w) :
    ∃ t, J t (p.run answer w).2 ∧ ∀ a, (p.run answer w).1 = some a → Q a t := by
  induction p generalizing s w with
  | done a =>
    refine ⟨s, hJ, ?_⟩
    rintro _ ⟨⟩
    exact h
  | ask q next ih => exact ih _ (h.2 _) (step s q w h.1 hJ)
  | unfinished => exact ⟨s, hJ, nofun⟩

/-- In its run from a state of the surroundings the program comes to ask a question in another one. -/
inductive Asks (answer : (q : I.Query) → τ → I.Answer q × τ) : Program I α → τ → I.Query → τ → Prop
  | now (q : I.Query) (next : I.Answer q → Program I α) (w : τ) : Asks answer (ask q next) w q w
  | later {q q' : I.Query} {next : I.Answer q → Program I α} {w w' : τ}
      (h : Asks answer (next (answer q w).1) (answer q w).2 q' w') : Asks answer (ask q next) w q' w'

/-- Whatever a run asks is allowed, and asked where everything still holds that every allowed step keeps. -/
theorem Follows.asks {Q : α → σ → Prop} {answer : (q : I.Query) → τ → I.Answer q × τ} (J : σ → τ → Prop)
    (step : ∀ s q w, P.allows s q → J s w → J (P.next s q (answer q w).1) (answer q w).2)
    {p : Program I α} {s : σ} {w w' : τ} {q : I.Query} (h : p.Follows P Q s) (hJ : J s w)
    (hq : Asks answer p w q w') : ∃ t, P.allows t q ∧ J t w' := by
  induction hq generalizing s with
  | now q next w => exact ⟨s, h.1, hJ⟩
  | @later q _ _ w _ _ ih => exact ih (h.2 _) (step s q w h.1 hJ)

end Program

namespace Action
variable {I : Interface} {α β ε σ : Type} {P : Protocol I σ} {s : σ}

/-- The action keeps to a protocol for its questions beside those to the host. -/
def Follows (P : Protocol I σ) (act : Action I α) (s : σ) (Q : Except Error α → σ → Prop) : Prop :=
  act.run.Follows P.hosted Q s

variable {Q : Except Error α → σ → Prop}

theorem Follows.mono {R : Except Error α → σ → Prop} {act : Action I α} (h : Follows P act s Q)
    (hQ : ∀ r t, Q r t → R r t) : Follows P act s R := Program.Follows.mono hQ h

@[simp] theorem follows_cutOff : Follows P cutOff s Q := trivial

@[simp] theorem follows_ofExcept {wrap : ε → Error} {x : Except ε α} :
    Follows P (ofExcept wrap x) s Q ↔ Q (x.mapError wrap) s := by
  cases x <;> exact Iff.rfl

@[simp] theorem follows_host {q : Host.Query} {Q : Except Error q.Answer → σ → Prop} :
    Follows P (host q) s Q ↔ ∀ r, Q (.ok r) s :=
  ⟨And.right, fun h => ⟨trivial, h⟩⟩

/-- What follows a step depends on whether it succeeds; an error is the end. -/
theorem follows_bind {Q : Except Error β → σ → Prop} {x : Action I α} {f : α → Action I β} :
    Follows P (x >>= f) s Q ↔ Follows P x s fun
      | .ok a, t => Follows P (f a) t Q
      | .error e, t => Q (.error e) t := by
  refine Program.follows_bind.trans (iff_of_eq (congrFun (congrArg (Program.Follows P.hosted · x.run) ?_) s))
  funext r t
  cases r <;> rfl

variable {Fault : Error → Prop}

/-- The action asks what is allowed in a state, no answer leads away from it, and there are but certain faults. -/
def Stays (P : Protocol I σ) (Fault : Error → Prop) (act : Action I α) (s : σ) : Prop :=
  Follows P act s fun r t => t = s ∧ ∀ e, r = .error e → Fault e

@[simp] theorem stays_pure {a : α} : Stays P Fault (pure a) s := ⟨rfl, nofun⟩

theorem stays_throw {e : Error} (h : Fault e) : Stays P Fault (throw e : Action I α) s :=
  ⟨rfl, fun _ he => Except.error.inj he ▸ h⟩

theorem stays_ofExcept {wrap : ε → Error} {x : Except ε α} (h : ∀ e, x = .error e → Fault (wrap e)) :
    Stays P Fault (ofExcept wrap x) s := by
  cases x with
  | ok a => exact stays_pure
  | error e => exact stays_throw (h e rfl)

theorem stays_ask {q : I.Query} (h : P.allows s q ∧ ∀ r, P.next s q r = s) : Stays P Fault (ask q) s :=
  ⟨h.1, fun r => ⟨h.2 r, nofun⟩⟩

theorem Stays.bind {x : Action I α} {f : α → Action I β} (hx : Stays P Fault x s)
    (hf : ∀ a, Stays P Fault (f a) s) :
    Stays P Fault (x >>= f) s := by
  refine follows_bind.2 (Follows.mono hx ?_)
  rintro (e | a) t ⟨rfl, he⟩
  · exact ⟨rfl, fun _ h => Except.error.inj h ▸ he e rfl⟩
  · exact hf a

end Action
end DevEnv
