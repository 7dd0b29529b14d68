import DevEnv.Host

/-! How actions end when they are run to their result, one law for each way to build an action.
A run is taken apart at its binds; no action has to be unfolded to its questions for that. -/
namespace DevEnv

theorem Program.run_bind {I : Interface} {α β σ : Type} (answer : (q : I.Query) → σ → I.Answer q × σ)
    (p : Program I α) (f : α → Program I β) (s : σ) :
    (p.bind f).run answer s =
      match p.run answer s with
      | (some a, t) => (f a).run answer t
      | (none, t) => (none, t) := by
  induction p generalizing s with
  | done a => rfl
  | ask q next ih => exact ih _ _
  | unfinished => rfl

/-- Of steps that may fail the next one is run from where the first one succeeded. -/
theorem Program.run_run_bind {I : Interface} {α β ε σ : Type} (answer : (q : I.Query) → σ → I.Answer q × σ)
    (x : ExceptT ε (Program I) α) (f : α → ExceptT ε (Program I) β) (s : σ) :
    (x >>= f).run.run answer s =
      match x.run.run answer s with
      | (some (.ok a), t) => (f a).run.run answer t
      | (some (.error e), t) => (some (.error e), t)
      | (none, t) => (none, t) := by
  refine (run_bind answer x.run (ExceptT.bindCont f) s).trans ?_
  rcases x.run.run answer s with ⟨_ | e | a, t⟩ <;> rfl

namespace Action
variable {I : Interface} {α β ε σ : Type}
  {answer : (q : (Host.interface.sum I).Query) → σ → (Host.interface.sum I).Answer q × σ}
  {s s' : σ}

/-- The action, begun in a state, comes to a result and leaves a state behind. -/
def Ends (answer : (q : (Host.interface.sum I).Query) → σ → (Host.interface.sum I).Answer q × σ)
    (act : Action I α)
    (s : σ) (r : Except Error α) (s' : σ) : Prop :=
  act.run.run answer s = (some r, s')

@[simp] theorem ends_pure {a : α} {r : Except Error α} :
    Ends answer (pure a) s r s' ↔ r = .ok a ∧ s' = s := by
  constructor
  · rintro ⟨⟩
    exact ⟨rfl, rfl⟩
  · rintro ⟨rfl, rfl⟩
    rfl

@[simp] theorem ends_throw {e : Error} {r : Except Error α} :
    Ends answer (throw e) s r s' ↔ r = .error e ∧ s' = s := by
  constructor
  · rintro ⟨⟩
    exact ⟨rfl, rfl⟩
  · rintro ⟨rfl, rfl⟩
    rfl

theorem ends_ofExcept {wrap : ε → Error} {x : Except ε α} {r : Except Error α} :
    Ends answer (ofExcept wrap x) s r s' ↔ r = x.mapError wrap ∧ s' = s := by
  cases x with
  | ok b => exact ends_pure
  | error e => exact ends_throw

theorem ends_ofExcept_ok {wrap : ε → Error} {x : Except ε α} {a : α} :
    Ends answer (ofExcept wrap x) s (.ok a) s' ↔ x = .ok a ∧ s' = s := by
  cases x with
  | ok b =>
    refine ends_pure.trans (and_congr_left' ?_)
    rw [Except.ok.injEq, Except.ok.injEq, eq_comm]
  | error e => exact ends_throw.trans (and_congr_left' (iff_of_false nofun nofun))

@[simp] theorem ends_host {q : Host.Query} {r : Except Error q.Answer} :
    Ends answer (host q) s r s' ↔ r = .ok (answer (.inl q) s).1 ∧ s' = (answer (.inl q) s).2 := by
  constructor
  · rintro ⟨⟩
    exact ⟨rfl, rfl⟩
  · rintro ⟨rfl, rfl⟩
    rfl

@[simp] theorem ends_ask {q : I.Query} {r : Except Error (I.Answer q)} :
    Ends answer (ask q) s r s' ↔ r = .ok (answer (.inr q) s).1 ∧ s' = (answer (.inr q) s).2 := by
  constructor
  · rintro ⟨⟩
    exact ⟨rfl, rfl⟩
  · rintro ⟨rfl, rfl⟩
    rfl

/-- Either the first part succeeds and the second one decides, or the first part's error is the end. -/
theorem ends_bind {x : Action I α} {f : α → Action I β} {r : Except Error β} :
    Ends answer (x >>= f) s r s' ↔
      (∃ a t, Ends answer x s (.ok a) t ∧ Ends answer (f a) t r s') ∨
        ∃ e, Ends answer x s (.error e) s' ∧ r = .error e := by
  unfold Ends
  rw [Program.run_run_bind]
  rcases x.run.run answer s with ⟨_ | e | a, t⟩
  · simp
  · constructor
    · rintro ⟨⟩
      exact .inr ⟨e, rfl, rfl⟩
    · rintro (⟨_, _, ⟨⟩, _⟩ | ⟨_, ⟨⟩, rfl⟩)
      rfl
  · constructor
    · exact fun h => .inl ⟨a, t, rfl, h⟩
    · rintro (⟨_, _, ⟨⟩, h⟩ | ⟨_, ⟨⟩, _⟩)
      exact h

theorem ends_bind_ok {x : Action I α} {f : α → Action I β} {b : β} :
    Ends answer (x >>= f) s (.ok b) s' ↔
      ∃ a t, Ends answer x s (.ok a) t ∧ Ends answer (f a) t (.ok b) s' := by
  simp [ends_bind]

/-- An action whose outcome is looked at does not fail. -/
theorem ends_outcome {act : Action I α} {r : Except Error (Except Error α)} :
    Ends answer act.outcome s r s' ↔ ∃ x, Ends answer act s x s' ∧ r = .ok x := by
  have hrun : act.outcome.run.run answer s =
      match act.run.run answer s with
      | (some x, t) => (some (.ok x), t)
      | (none, t) => (none, t) := by
    refine (Program.run_bind answer act.run (pure ∘ Except.ok) s).trans ?_
    rcases act.run.run answer s with ⟨_ | x, t⟩ <;> rfl
  unfold Ends
  rw [hrun]
  rcases act.run.run answer s with ⟨_ | x, t⟩
  · simp
  · constructor
    · rintro ⟨⟩
      exact ⟨x, rfl, rfl⟩
    · rintro ⟨_, ⟨⟩, rfl⟩
      rfl

/-- What comes of a result is the end of an action that only adds that. -/
theorem Ends.map {x : Action I α} {r : Except Error α} (h : Ends answer x s r s') (f : α → β) :
    Ends answer (do return f (← x)) s (r.map f) s' := by
  cases r with
  | ok a => exact ends_bind_ok.2 ⟨a, s', h, ends_pure.2 ⟨rfl, rfl⟩⟩
  | error e => exact ends_bind.2 (.inr ⟨e, h, rfl⟩)

/-- As many results as there are members. -/
theorem length_of_ends_mapM {f : α → Action I β} {l : List α} {bs : List β}
    (h : Ends answer (l.mapM f) s (.ok bs) s') : bs.length = l.length := by
  induction l generalizing s bs s' with
  | nil =>
    cases (ends_pure.1 h).1
    rfl
  | cons a l ih =>
    rw [List.mapM_cons] at h
    obtain ⟨b, _, -, h⟩ := ends_bind_ok.1 h
    obtain ⟨bs', _, hl, h⟩ := ends_bind_ok.1 h
    cases (ends_pure.1 h).1
    exact congrArg (· + 1) (ih hl)

/-- The action, begun in a state, comes to some result. -/
def Halts (answer : (q : (Host.interface.sum I).Query) → σ → (Host.interface.sum I).Answer q × σ)
    (act : Action I α) (s : σ) : Prop := ∃ r s', Ends answer act s r s'

theorem halts_pure {a : α} : Halts answer (pure a) s := ⟨_, _, ends_pure.2 ⟨rfl, rfl⟩⟩

theorem halts_throw {e : Error} : Halts answer (throw e : Action I α) s := ⟨_, _, ends_throw.2 ⟨rfl, rfl⟩⟩

theorem halts_ofExcept {wrap : ε → Error} {x : Except ε α} : Halts answer (ofExcept wrap x : Action I α) s :=
  ⟨_, _, ends_ofExcept.2 ⟨rfl, rfl⟩⟩

theorem halts_host {q : Host.Query} : Halts answer (host q) s := ⟨_, _, ends_host.2 ⟨rfl, rfl⟩⟩

theorem halts_ask {q : I.Query} : Halts answer (ask q) s := ⟨_, _, ends_ask.2 ⟨rfl, rfl⟩⟩

theorem Halts.bind {x : Action I α} {f : α → Action I β} (hx : Halts answer x s)
    (hf : ∀ a t, Ends answer x s (.ok a) t → Halts answer (f a) t) : Halts answer (x >>= f) s := by
  obtain ⟨r, t, h⟩ := hx
  cases r with
  | error e => exact ⟨_, _, ends_bind.2 (.inr ⟨e, h, rfl⟩)⟩
  | ok a =>
    obtain ⟨r, t', h'⟩ := hf a t h
    exact ⟨r, t', ends_bind.2 (.inl ⟨a, t, h, h'⟩)⟩

/-- Two runs of an action from one state do not differ. -/
theorem Ends.unique {act : Action I α} {r r' : Except Error α} {t : σ} (h : Ends answer act s r s')
    (h' : Ends answer act s r' t) : r = r' ∧ s' = t := by
  simpa using h.symm.trans h'

end Action
end DevEnv
