import DevEnv.Proofs.Local.Parts

/-! The protocol of a start, seen from the runtime: it looks and cleans, then creates once, then starts and inspects.
It is kept whatever the runtime answers, and so also when others call the runtime in between. -/
namespace DevEnv.Local
open DevEnv.Action
open DevEnv.Runtime (Call)

/-- How far a start has come: it may still clean, the name should be free, or its container was created. -/
inductive Stage where
  | checking
  | clear
  | created
  deriving DecidableEq

/-- The calls of a start, by stage. The container is created with the pinned port for SSH, if there is one. -/
def stages (name : String) (forced : Bool) (pinned : UInt16) : Protocol Runtime.interface Stage where
  allows
    | .checking, c => Reads c ∨ c = .inspect name ∨ c = .remove name forced
    | .clear, c => ∃ spec, c = .create spec ∧ spec.name = name ∧
        (pinned ≠ 0 → Container.ReachedAt spec.bindings pinned)
    | .created, c => c = .start name ∨ c = .inspect name
  next
    | .checking, .inspect _ => fun
      | .error (.notFound _) => .clear
      | _ => .checking
    | .checking, .remove _ _ => fun
      | .ok _ => .clear
      | .error _ => .checking
    | .clear, .create _ => fun
      | .ok _ => .created
      | .error _ => .clear
    | s, _ => fun _ => s

variable {name : String} {forced : Bool} {pinned : UInt16}

theorem permits_reads : (stages name forced pinned).Permits .checking Reads := by
  rintro c (rfl | ⟨_, rfl⟩)
  · exact ⟨.inl (.inl rfl), fun _ => rfl⟩
  · exact ⟨.inl (.inr ⟨_, rfl⟩), fun _ => rfl⟩

/-- Cleaning removes nothing unless it has looked, and succeeds only if the name should be free then. -/
theorem follows_clean : Follows (stages name forced pinned) (clean name forced) .checking fun r t =>
    ∀ x, r = .ok x → t = .clear := by
  refine follows_bind.2 (follows_attempt.2 ⟨.inr (.inl rfl), fun r => ?_⟩)
  dsimp only
  split
  · split
    · nofun
    · refine follows_call.2 ⟨.inr (.inr rfl), fun r => ?_⟩
      cases r with
      | ok _ => exact fun _ _ => rfl
      | error _ => nofun
  · exact fun _ _ => rfl
  · nofun

theorem watches_created : Watches (stages name forced pinned) name (· = .created) fun _ => True where
  allows := by
    rintro _ rfl
    exact .inr rfl
  keeps := by
    rintro _ _ rfl
    rfl
  ready _ _ := trivial

/-- The stages of a start are those of its parts. -/
private theorem carries_stages {o : Options} :
    Carries (stages o.name o.forced o.sshPort) o .checking .clear .created .created where
  reads := permits_reads
  clean := follows_clean
  create _ hname hreached := ⟨⟨_, rfl, hname, hreached⟩, fun _ => rfl⟩
  bringUp p := by
    have up : Follows (stages o.name o.forced o.sshPort) (bringUp p o) .created _ :=
      follows_bringUp watches_created (.inl rfl) fun _ => rfl
    exact up.mono fun _ _ h _ _ => h.1
  inspect := by
    rintro _ rfl
    exact ⟨.inr rfl, fun _ => rfl⟩

/-- A start keeps to its stages, and it succeeds only in the last one and with the port that was pinned. -/
theorem follows_start {p : Engine.Patience} {o : Options} :
    Follows (stages o.name o.forced o.sshPort) (start p o) .checking fun r t =>
      ∀ s, r = .ok s → t = .created ∧ (o.sshPort ≠ 0 → s.sshPort = o.sshPort) :=
  carries_stages.follows_start p

end DevEnv.Local
