import DevEnv.Proofs.Protocol
import DevEnv.Wait

/-! What a wait keeps to when its probe and its last question do.
It succeeds by a probe that reports ready, and fails by a probe, by the deadline or by the user. -/
namespace DevEnv.Watch
open DevEnv.Action

variable {I : Interface} {σ : Type} {P : Protocol I σ} {w : Watch I} {K Ready : σ → Prop}
  {Fault : Error → Prop}

/-- The questions of a watch keep a condition; a probe that reports ready leads to a ready state. -/
structure Keeps (P : Protocol I σ) (w : Watch I) (K Ready : σ → Prop) (Fault : Error → Prop) : Prop where
  probe : ∀ {s}, K s → Follows P w.probe s fun
    | .ok b, t => K t ∧ (b → Ready t)
    | .error e, t => K t ∧ Fault e
  lastState : ∀ {s}, K s → Follows P w.lastState s fun
    | .ok _, t => K t
    | .error e, t => K t ∧ Fault e
  cancelled : Fault (.cancelled w.name)
  timeout : ∀ {text}, Fault (.timeout w.name w.timeout text)

/-- What is left of a wait: a ready state or a reason to fail. -/
def Settled (K Ready : σ → Prop) (Fault : Error → Prop) (r : Except Error Unit) (t : σ) : Prop :=
  K t ∧ match r with
    | .ok () => Ready t
    | .error e => Fault e

theorem Keeps.poll (h : w.Keeps P K Ready Fault) {deadline : Option Instant} {steps : Nat}
    {phase : Phase} {s : σ}
    (hs : K s) : Follows P (w.poll deadline steps phase) s (Settled K Ready Fault) := by
  induction steps generalizing phase s with
  | zero =>
    cases phase <;> exact follows_cutOff
  | succ n ih =>
    cases phase with
    | probing =>
      refine follows_bind.2 (follows_host.2 fun cancelled => ?_)
      dsimp only
      split
      · exact ⟨hs, h.cancelled⟩
      · refine follows_bind.2 ((h.probe hs).mono ?_)
        rintro (e | ready) t hr
        · exact hr
        · dsimp only
          split
          · next hready => exact ⟨hr.1, hr.2 hready⟩
          · exact follows_bind.2 (follows_host.2 fun now => ih hr.1)
    | resting next =>
      refine follows_bind.2 (follows_host.2 fun now => ?_)
      dsimp only
      split
      · refine follows_bind.2 ((h.lastState hs).mono ?_)
        rintro (e | text) t hr
        · exact hr
        · exact ⟨hr, h.timeout⟩
      · split
        · exact ih hs
        · refine follows_bind.2 (follows_host.2 fun cancelled => ?_)
          dsimp only
          split
          · exact ⟨hs, h.cancelled⟩
          · exact follows_bind.2 (follows_host.2 fun _ => ih hs)

/-- A wait that ends does so in a ready state or for a reason to fail, whatever the clock shows. -/
theorem Keeps.await (h : w.Keeps P K Ready Fault) {steps : Nat} {s : σ} (hs : K s) :
    Follows P (w.await steps) s (Settled K Ready Fault) :=
  follows_bind.2 (follows_host.2 fun _ => h.poll hs)

end DevEnv.Watch
