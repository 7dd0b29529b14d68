import DevEnv.Proofs.Local.Sequence

/-! What is left after a start that was refused as invalid.
Mounts and ports are laid out after the cleaning, so their refusal alone costs the environment that was there. -/
namespace DevEnv.Local
open DevEnv.Action
open DevEnv.Runtime (Memory)
open DevEnv.Runtime.Memory (Reachable)

variable {τ : Type} {host : (q : Host.Query) → τ → q.Answer × τ} {h h' : τ} {m m' : Memory}
  {p : Engine.Patience} {o : Options} {e : Error}

/-- Two runtimes hold the same containers, as told by identifier and specification, and the same images. -/
structure SameHoldings (m m' : Memory) : Prop where
  containers : ∀ n, (m'.containers.get? n).map (fun k => (k.container.id, k.spec)) =
    (m.containers.get? n).map fun k => (k.container.id, k.spec)
  images : m'.images = m.images

theorem SameHoldings.refl (m : Memory) : SameHoldings m m := ⟨fun _ => rfl, rfl⟩

/-- A refusal comes either before the cleaning, or from the layout after it. -/
private theorem refused_or_cleaned (hm : Reachable m)
    (he : Ends (beside host) (start p o) (h, m) (.error e) (h', m')) (hk : e.kind = .invalid) :
    (∀ a, ¬ Resolves m o a) ∧ m' = m ∨
      ∃ a, Resolves m o a ∧ LayoutFault o a e ∧ Cleaned m o.name o.forced (.ok ()) m' := by
  cases ends_start hm.sound he with
  | refused never _ => exact .inl ⟨never, rfl⟩
  | portless _ => cases hk
  | spared _ hc =>
    cases hc with
    | live _ _ _ => cases hk
    | stuck _ _ => cases hk
  | unplanned hr hc hf => exact .inr ⟨_, hr, hf, hc⟩
  | planned _ _ _ _ _ _ hu => exact absurd hk hu.kind_ne_invalid

/-- A start refused as invalid changes nothing unless its name led to a container and nothing was refused before
the layout. Then it has taken away that container, whether it has the name or is identified by it, and only the layout
is at fault. -/
theorem start_invalid (hm : Reachable m) (he : Ends (beside host) (start p o) (h, m) (.error e) (h', m'))
    (hk : e.kind = .invalid) :
    (SameHoldings m m' ↔ ¬ ((∃ a, Resolves m o a) ∧ ∃ k, m.find? o.name = some k)) ∧
      (SameHoldings m m' → m' = m) ∧
      ∀ a k, Resolves m o a → m.find? o.name = some k →
        LayoutFault o a e ∧ m' = { m with containers := m.containers.erase k.container.name } := by
  rcases refused_or_cleaned hm he hk with ⟨never, rfl⟩ | ⟨a, ha, hf, hc⟩
  · refine ⟨iff_of_true (.refl m') ?_, fun _ => rfl, fun a _ ha => absurd ha (never a)⟩
    rintro ⟨⟨a, ha⟩, _⟩
    exact never a ha
  cases hc with
  | absent hn =>
    refine ⟨iff_of_true (.refl m) ?_, fun _ => rfl, fun _ k _ hk => ?_⟩
    · rintro ⟨_, k, hk⟩
      exact absurd (hn.symm.trans hk) nofun
    · exact absurd (hn.symm.trans hk) nofun
  | @removed k hk _ =>
    have gone : ¬ SameHoldings m { m with containers := m.containers.erase k.container.name } := by
      intro hs
      have hs := hs.containers k.container.name
      rw [SortedMap.get?_erase_self, hm.sound.get?_of_find? hk] at hs
      cases hs
    refine ⟨iff_of_false gone (not_not_intro ⟨⟨a, ha⟩, k, hk⟩), fun hs => absurd hs gone,
      fun a' k' ha' hk' => ?_⟩
    obtain rfl : k = k' := Option.some.inj (hk.symm.trans hk')
    obtain rfl : a = a' := ha.unique ha'
    exact ⟨hf, rfl⟩

/-- A start that asks for a mount without a place in the container. -/
def homeless : Options :=
  { image := some "mnist:dev", name := "mnist", buildContext := "/home/me/mnist",
    source := .docker (some {}) ["/data"] }

/-- A runtime with a container that has not been started yet. -/
def waiting : Memory := (Memory.answer (.create { name := "mnist", image := "mnist:dev" }) {}).2

theorem reachable_waiting : Reachable waiting := .call .empty _

/-- The complaint about the mount. -/
def complaint : Error := .invalidOptions "invalid mount option '/data', expected '<host>:<container>'"

theorem ends_homeless : Ends (beside stillHost) (start ⟨⟨0⟩, 10⟩ homeless) ((), waiting) (.error complaint)
    ((), { waiting with containers := ∅ }) := by
  rfl

/-- Nothing but the mount is refused. -/
theorem resolves_homeless : Resolves waiting homeless ⟨"mnist:dev", {}, [], ["/data"]⟩ :=
  ⟨rfl, rfl, by decide, ⟨some {}, rfl, rfl⟩, rfl, rfl, nofun⟩

theorem start_invalid_homeless : LayoutFault homeless ⟨"mnist:dev", {}, [], ["/data"]⟩ complaint ∧
    ({ waiting with containers := ∅ } : Memory) =
      { waiting with containers := waiting.containers.erase "mnist" } :=
  (start_invalid reachable_waiting ends_homeless rfl).2.2 _ _ resolves_homeless rfl

/-- The malformed mount is reported when the container that was there is gone. -/
theorem start_invalid_takes_away : ∃ m, Reachable m ∧ ∃ e m',
    Ends (beside stillHost) (start ⟨⟨0⟩, 10⟩ homeless) ((), m) (.error e) ((), m') ∧ e.kind = .invalid ∧
      ¬ SameHoldings m m' :=
  ⟨waiting, reachable_waiting, complaint, _, ends_homeless, rfl,
    fun hs => absurd (hs.containers "mnist") (by decide)⟩

end DevEnv.Local
