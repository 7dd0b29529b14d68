import DevEnv.Proofs.Exchange
import DevEnv.Proofs.Protocol

/-! The runs of programs that keep to a protocol. Each question was allowed where the exchanges before it lead,
so what every allowed exchange keeps holds at every point of such a run. -/
namespace DevEnv

namespace Protocol
variable {I : Interface} {σ : Type} {P : Protocol I σ} {s : σ} {es fs : List (Exchange I)}

/-- The state that exchanges lead to. -/
def reach (P : Protocol I σ) (s : σ) (es : List (Exchange I)) : σ :=
  es.foldl (fun t e => P.next t e.query e.answer) s

/-- Every question is allowed when it is asked. -/
def Admits (P : Protocol I σ) : σ → List (Exchange I) → Prop
  | _, [] => True
  | s, e :: es => P.allows s e.query ∧ P.Admits (P.next s e.query e.answer) es

theorem admits_append : P.Admits s (es ++ fs) ↔ P.Admits s es ∧ P.Admits (P.reach s es) fs := by
  induction es generalizing s with
  | nil => simp [Admits, reach]
  | cons e es ih => exact (and_congr_right fun _ => ih).trans and_assoc.symm

/-- What every allowed exchange keeps holds of all exchanges and of where they lead. -/
theorem Admits.invariant {Inv : List (Exchange I) → σ → Prop}
    (step : ∀ es t e, Inv es t → P.allows t e.query → Inv (es ++ [e]) (P.next t e.query e.answer))
    (h : P.Admits s es) (first : Inv [] s) : Inv es (P.reach s es) := by
  refine (?_ : ∀ before, Inv before s → Inv (before ++ es) (P.reach s es)) [] first
  clear first
  induction es generalizing s with
  | nil =>
    intro before hb
    rwa [List.append_nil]
  | cons e es ih =>
    intro before hb
    rw [List.append_cons]
    exact ih h.2 _ (step before s e hb h.1)

end Protocol

/-- The exchanges of a run beside those with the host. -/
def asked {I : Interface} (es : List (Exchange (Host.interface.sum I))) : List (Exchange I) :=
  es.filterMap fun
    | ⟨.inl _, _⟩ => none
    | ⟨.inr q, r⟩ => some ⟨q, r⟩

section Asked
variable {I : Interface} {es : List (Exchange (Host.interface.sum I))}

/-- A part of the exchanges beside those with the host is a part of the run. -/
theorem exists_of_asked_eq {before after : List (Exchange I)} {e : Exchange I}
    (h : asked es = before ++ e :: after) : ∃ es₁ es₂, es = es₁ ++ ⟨.inr e.query, e.answer⟩ :: es₂ ∧
      asked es₁ = before ∧ asked es₂ = after := by
  induction es generalizing before with
  | nil => cases before <;> cases h
  | cons x es ih =>
    obtain ⟨q | q, r⟩ := x
    · obtain ⟨es₁, es₂, rfl, h₁, h₂⟩ := ih h
      exact ⟨_ :: es₁, es₂, rfl, h₁, h₂⟩
    · cases before with
      | nil =>
        obtain ⟨rfl, rfl⟩ := List.cons.inj h
        exact ⟨[], es, rfl, rfl, rfl⟩
      | cons y before =>
        obtain ⟨rfl, hrest⟩ := List.cons.inj h
        obtain ⟨es₁, es₂, rfl, rfl, h₂⟩ := ih hrest
        exact ⟨_ :: es₁, es₂, rfl, rfl, h₂⟩

theorem Protocol.reach_hosted {σ : Type} {P : Protocol I σ} {s : σ} :
    P.hosted.reach s es = P.reach s (asked es) := by
  induction es generalizing s with
  | nil => rfl
  | cons x es ih =>
    obtain ⟨q | q, r⟩ := x
    · exact ih
    · exact ih

theorem Protocol.Admits.asked {σ : Type} {P : Protocol I σ} {s : σ} (h : P.hosted.Admits s es) :
    P.Admits s (asked es) := by
  induction es generalizing s with
  | nil => trivial
  | cons x es ih =>
    obtain ⟨q | q, r⟩ := x
    · exact ih h.2
    · exact ⟨h.1, ih h.2⟩

end Asked

namespace Program
variable {I : Interface} {α σ : Type} {P : Protocol I σ} {s : σ} {p : Program I α} {es : List (Exchange I)}
  {res : Option α}

/-- A run keeps to the protocol that its program keeps to. -/
theorem Follows.admits {Q : α → σ → Prop} (h : p.Follows P Q s) (hr : p.Runs es res) :
    P.Admits s es ∧ ∀ a, res = some a → Q a (P.reach s es) := by
  induction hr generalizing s with
  | done a =>
    refine ⟨trivial, ?_⟩
    rintro _ ⟨⟩
    exact h
  | unfinished => exact ⟨trivial, nofun⟩
  | @ask q next r es res hr ih =>
    obtain ⟨hes, hQ⟩ := ih (h.2 r)
    exact ⟨⟨h.1, hes⟩, hQ⟩

variable {β ε : Type} {Fatal : Exchange I → Prop}

/-- An answer that is fatal ends the program at once, and with an error. -/
def StopsOn (Fatal : Exchange I → Prop) : Program I (Except ε α) → Prop
  | ask q next => ∀ r, (next r).StopsOn Fatal ∧ (Fatal ⟨q, r⟩ → ∃ e, next r = done (.error e))
  | done _ | unfinished => True

/-- A fatal answer is the last one of a run. -/
theorem StopsOn.of_runs {p : Program I (Except ε α)} {res : Option (Except ε α)} (h : p.StopsOn Fatal)
    {before after : List (Exchange I)} {e : Exchange I} (hr : p.Runs (before ++ e :: after) res) (he : Fatal e) :
    after = [] ∧ ∃ x, res = some (.error x) := by
  induction before generalizing p with
  | nil =>
    cases hr with
    | @ask q next r _ _ hr =>
      obtain ⟨x, hx⟩ := (h r).2 he
      rw [hx] at hr
      obtain ⟨rfl, rfl⟩ := runs_done.1 hr
      exact ⟨rfl, x, rfl⟩
  | cons b before ih =>
    cases hr with
    | @ask q next r _ _ hr => exact ih (h r).1 hr

/-- A program that gets no fatal answers has nothing to stop on. -/
theorem Follows.stopsOn {p : Program I (Except ε α)} {Q : Except ε α → σ → Prop} (h : p.Follows P Q s)
    (harmless : ∀ t q r, P.allows t q → ¬ Fatal ⟨q, r⟩) : p.StopsOn Fatal := by
  induction p generalizing s with
  | done a => trivial
  | ask q next ih => exact fun r => ⟨ih r (h.2 r), fun hf => absurd hf (harmless s q r h.1)⟩
  | unfinished => trivial

end Program

namespace Action
variable {I : Interface} {α β ε σ : Type} {P : Protocol I σ} {s : σ} {Fatal : Exchange I → Prop}

theorem Follows.admits {act : Action I α} {Q : Except Error α → σ → Prop} (h : Follows P act s Q)
    {es : List (Exchange (Host.interface.sum I))} {res : Option (Except Error α)} (hr : Runs act es res) :
    P.Admits s (asked es) ∧ ∀ r, res = some r → Q r (P.reach s (asked es)) := by
  obtain ⟨hes, hQ⟩ := Program.Follows.admits h hr
  rw [Protocol.reach_hosted] at hQ
  exact ⟨hes.asked, hQ⟩

/-- No exchange with the host is fatal. -/
def Beyond (Fatal : Exchange I → Prop) : Exchange (Host.interface.sum I) → Prop
  | ⟨.inl _, _⟩ => False
  | ⟨.inr q, r⟩ => Fatal ⟨q, r⟩

/-- A fatal answer ends the action at once, and with an error. -/
def StopsOn (Fatal : Exchange I → Prop) (act : Action I α) : Prop := act.run.StopsOn (Beyond Fatal)

theorem stopsOn_pure {a : α} : StopsOn Fatal (pure a : Action I α) := trivial

theorem stopsOn_throw {e : Error} : StopsOn Fatal (throw e : Action I α) := trivial

theorem stopsOn_ofExcept {wrap : ε → Error} {x : Except ε α} : StopsOn Fatal (ofExcept wrap x : Action I α) := by
  cases x <;> trivial

theorem Follows.stopsOn {act : Action I α} {Q : Except Error α → σ → Prop} (h : Follows P act s Q)
    (harmless : ∀ t q r, P.allows t q → ¬ Fatal ⟨q, r⟩) : StopsOn Fatal act := by
  refine Program.Follows.stopsOn h ?_
  rintro t (q | q) r hq
  · exact id
  · exact harmless t q r hq

theorem StopsOn.bind {x : Action I α} {f : α → Action I β} (hx : StopsOn Fatal x) (hf : ∀ a, StopsOn Fatal (f a)) :
    StopsOn Fatal (x >>= f) := by
  unfold StopsOn at hx ⊢
  rw [run_bind]
  generalize x.run = p at hx ⊢
  induction p with
  | done r =>
    cases r with
    | error e => trivial
    | ok a => exact hf a
  | ask q next ih =>
    intro r
    obtain ⟨hnext, hfatal⟩ := hx r
    refine ⟨ih r hnext, fun hr => ?_⟩
    obtain ⟨e, he⟩ := hfatal hr
    exact ⟨e, congrArg (Program.bind · _) he⟩
  | unfinished => trivial

/-- A question whose fatal answers are met with an error. -/
theorem stopsOn_ask_bind {q : I.Query} {f : I.Answer q → Action I α}
    (h : ∀ r, StopsOn Fatal (f r) ∧ (Fatal ⟨q, r⟩ → ∃ e, f r = throw e)) : StopsOn Fatal (ask q >>= f) := by
  intro r
  refine ⟨(h r).1, fun hr => ?_⟩
  obtain ⟨e, he⟩ := (h r).2 hr
  refine ⟨e, ?_⟩
  change (f r).run = _
  rw [he]
  rfl

/-- Beside the host, nothing is asked any more after a fatal answer. -/
theorem StopsOn.of_runs {act : Action I α} (h : StopsOn Fatal act)
    {es : List (Exchange (Host.interface.sum I))} {res : Option (Except Error α)} (hr : Runs act es res)
    {before after : List (Exchange I)} {e : Exchange I} (hes : asked es = before ++ e :: after) (he : Fatal e) :
    after = [] ∧ ∃ x, res = some (.error x) := by
  obtain ⟨es₁, es₂, rfl, -, rfl⟩ := exists_of_asked_eq hes
  obtain ⟨rfl, hres⟩ := Program.StopsOn.of_runs h hr he
  exact ⟨rfl, hres⟩

end Action
end DevEnv
