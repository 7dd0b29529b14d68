import DevEnv.Proofs.Local.Sequence
import DevEnv.Proofs.Local.Stages
import DevEnv.Proofs.Memory.History

/-! Which containers an operation can touch: the one that its name leads to, whether or not it has this library's mark.
All others are safe from it, and so is the image that each of them was created from, but that a start may go on to
another container by way of identifiers, and let it run. -/
namespace DevEnv.Local
open DevEnv.Action
open DevEnv.Runtime (Call Memory)
open DevEnv.Runtime.Memory (Aims Entry Reachable Sound)

/-- The operations that change the container of a name. -/
inductive Operation where
  | start (p : Engine.Patience) (o : Options)
  | clean (name : String) (forced : Bool)
  | destroy (name : String)
  | pause (name : String)
  | resume (name : String)

namespace Operation

def name : Operation → String
  | start _ o => o.name
  | clean name _ | destroy name | pause name | resume name => name

/-- The operation on a container runtime, without its result. -/
def perform : Operation → Act Unit
  | start p o => do let _ ← Local.start p o
  | clean name forced => Local.clean name forced
  | destroy name => do let _ ← Local.destroy name
  | pause name => do let _ ← Local.pause name
  | resume name => do let _ ← Local.resume name

/-- What the operation leaves of a runtime, also when it never comes to a result. -/
def after {τ : Type} (op : Operation) (host : (q : Host.Query) → τ → q.Answer × τ) (h : τ)
    (m : Memory) : Memory :=
  (op.perform.run.run (beside host) (h, m)).2.2

/-- Whether the operation may take away a container that its name leads to. -/
def MayRemove : Operation → Entry → Prop
  | start _ o, k => k.container.status.isLive → o.forced
  | clean _ forced, k => k.container.status.isLive → forced
  | destroy _, _ => True
  | pause _, _ | resume _, _ => False

/-- The changes of state that the operation may bring about in a container that its name leads to. -/
def Turns : Operation → Status → Status → Prop
  | pause _, s, s' => s = .running ∧ s' = .paused
  | resume _, s, s' => s = .paused ∧ s' = .running
  | _, s, s' => s = .created ∧ s' = .running

end Operation

variable {τ σ α : Type} {host : (q : Host.Query) → τ → q.Answer × τ} {h : τ} {m : Memory} {k : Entry}
  {name : String}

section Images
variable {P : Protocol Runtime.interface σ} {act : Act α} {s : σ} {Q : Except Error α → σ → Prop}

/-- Without removals of images all images stay. -/
private theorem images_run (keeps : ∀ s c, P.allows s c → ∀ reference, c ≠ .removeImage reference)
    (ha : Follows P act s Q) :
    (act.run.run (beside host) (h, m)).2.2.images = m.images := by
  obtain ⟨_, himg, _⟩ := follows_run host h (fun _ n => n.images = m.images)
    (fun s c n hc hJ => (Memory.images_of_call n (keeps s c hc)).trans hJ) ha rfl
  exact himg

end Images

section Calls

/-- The protocol of certain calls. -/
private abbrev onlyCalls (S : Call → Prop) : Protocol Runtime.interface Unit := .only S

private theorem stays_pause : Stays (onlyCalls (· = .pause name)) (fun _ => True) (pause name) () := by
  refine (stays_attempt (S := (· = .pause name)) Protocol.permits_only rfl).bind fun r => ?_
  split
  · exact stays_pure
  · exact stays_pure
  · exact stays_throw trivial
  · exact stays_throw trivial

private theorem stays_resume : Stays (onlyCalls (· = .unpause name)) (fun _ => True) (resume name) () := by
  refine (stays_attempt (S := (· = .unpause name)) Protocol.permits_only rfl).bind fun r => ?_
  split
  · exact stays_pure
  · exact stays_pure
  · exact stays_throw trivial
  · exact stays_throw trivial

private theorem follows_perform_start {p : Engine.Patience} {o : Options} :
    Follows (stages o.name o.forced o.sshPort) (Operation.start p o).perform .checking fun _ _ => True := by
  refine follows_bind.2 (follows_start.mono fun r _ _ => ?_)
  cases r <;> trivial

private theorem keeps_stages {forced : Bool} {pinned : UInt16} (s : Stage) (c : Call)
    (hc : (stages name forced pinned).allows s c) (reference : String) : c ≠ .removeImage reference := by
  cases s with
  | checking => rcases hc with (rfl | ⟨_, rfl⟩) | rfl | rfl <;> nofun
  | clear =>
    obtain ⟨spec, rfl, _⟩ := hc
    nofun
  | created => rcases hc with rfl | rfl <;> nofun

/-- Only a destruction removes images. -/
theorem Operation.images_after (op : Operation) (hd : ∀ name, op ≠ .destroy name) :
    (op.after host h m).images = m.images := by
  cases op with
  | start p o => exact images_run keeps_stages follows_perform_start
  | clean name forced =>
    have hclean : Follows (stages name forced 0) (Local.clean name forced) .checking _ := follows_clean
    exact images_run keeps_stages hclean
  | destroy name => exact absurd rfl (hd name)
  | pause name => exact images_run (by rintro _ _ rfl; nofun) (stays_pause.bind fun _ => stays_pure)
  | resume name => exact images_run (by rintro _ _ rfl; nofun) (stays_resume.bind fun _ => stays_pure)

/-- The calls about the container of a name, until it is taken away, and then those that drop images. -/
private def handling (name : String) (forced : Bool) : Protocol Runtime.interface Bool where
  allows
    | false, c => c = .inspect name ∨ c = .pause name ∨ c = .unpause name ∨ c = .kill name ∨ c = .remove name forced
    | true, c => ∃ reference, c = .removeImage reference
  next
    | false, .remove _ _ => fun
      | .ok _ => true
      | .error _ => false
    | s, _ => fun _ => s

private theorem handles_clean {forced : Bool} :
    Follows (handling name forced) (clean name forced) false fun _ _ => True := by
  refine follows_bind.2 (follows_attempt.2 ⟨.inl rfl, fun r => ?_⟩)
  dsimp only
  split
  · split
    · trivial
    · exact follows_call.2 ⟨.inr (.inr (.inr (.inr rfl))), fun _ => trivial⟩
  · trivial
  · trivial

private theorem handles_destroy : Follows (handling name false) (destroy name) false fun _ _ => True := by
  have stop : Follows (handling name false) (stop name) false fun _ t => t = false := by
    refine follows_bind.2 (follows_attempt.2 ⟨.inr (.inr (.inr (.inl rfl))), fun r => ?_⟩)
    dsimp only
    split <;> exact rfl
  have dropImage (reference : String) :
      Follows (handling name false) (dropImage reference) true fun _ _ => True := by
    refine follows_bind.2 (follows_attempt.2 ⟨⟨_, rfl⟩, fun r => ?_⟩)
    dsimp only
    split <;> trivial
  refine follows_bind.2 (follows_attempt.2 ⟨.inl rfl, fun r => ?_⟩)
  dsimp only
  split
  · refine follows_bind.2 (stop.mono ?_)
    rintro (e | _) _ rfl
    · trivial
    refine follows_bind.2 (follows_call.2 ⟨.inr (.inr (.inr (.inr rfl))), fun r => ?_⟩)
    cases r with
    | error e => trivial
    | ok _ =>
      refine follows_bind.2 ((dropImage _).mono ?_)
      rintro (e | _) _ _ <;> trivial
  · trivial
  · trivial

private theorem handles_pause : Follows (handling name false) (pause name) false fun _ _ => True := by
  refine follows_bind.2 (follows_attempt.2 ⟨.inr (.inl rfl), fun r => ?_⟩)
  dsimp only
  split <;> trivial

private theorem handles_resume : Follows (handling name false) (resume name) false fun _ _ => True := by
  refine follows_bind.2 (follows_attempt.2 ⟨.inr (.inr (.inl rfl)), fun r => ?_⟩)
  dsimp only
  split <;> trivial

end Calls

section Target

/-- A container as it was, but that it may have come to run in the meantime. -/
private structure Later (k k' : Entry) : Prop where
  akin : k.Akin k'
  status : k'.container.status = k.container.status ∨
    k.container.status = .created ∧ k'.container.status = .running

private theorem Later.advance {k' : Entry} (h : Later k k') : Later k k'.advance := by
  refine ⟨h.akin.trans k'.continues_advance.toAkin, ?_⟩
  rcases k'.advance_cases with ha | ⟨_, _, ha⟩ | ⟨hs, ha⟩ <;> rw [ha]
  · exact h.status
  · exact h.status
  · rcases h.status with hk | ⟨_, hk⟩
    · exact .inr ⟨hk.symm.trans hs, rfl⟩
    · cases hs.symm.trans hk

private theorem Later.isLive {k' : Entry} (h : Later k k') (hk : k.container.status.isLive) :
    k'.container.status.isLive := by
  rcases h.status with hs | ⟨hs, _⟩
  · rwa [hs]
  · rw [hs] at hk
    cases hk

/-- Cleaning and whatever comes after it spare a live container unless they are forced. -/
private theorem spared_run {forced : Bool} {pinned : UInt16} {act : Act α} {Q : Except Error α → Stage → Prop}
    (ha : Follows (stages name forced pinned) act .checking Q) (hm : Sound m) (hf : m.find? name = some k) :
    (k.container.status.isLive → forced) ∨ ∃ k',
      (act.run.run (beside host) (h, m)).2.2.containers.get? k.container.name = some k' ∧ Later k k' := by
  let J (s : Stage) (n : Memory) : Prop := (k.container.status.isLive → forced) ∨
    s = .checking ∧ Sound n ∧ ∃ k', n.find? name = some k' ∧ Later k k'
  have step (s : Stage) (c : Call) (n : Memory) (hc : (stages name forced pinned).allows s c) (hJ : J s n) :
      J ((stages name forced pinned).next s c (Memory.answer c n).1) (Memory.answer c n).2 := by
    rcases hJ with hforced | ⟨rfl, hn, x, hx, hl⟩
    · exact .inl hforced
    rcases hc with (rfl | ⟨_, rfl⟩) | rfl | rfl
    · exact .inr ⟨rfl, hn, x, hx, hl⟩
    · exact .inr ⟨rfl, hn, x, hx, hl⟩
    · dsimp only [Memory.answer]
      rw [Memory.inspect_of_find? hx]
      exact .inr ⟨rfl, hn.put hx x.continues_advance, _, hn.find?_put hx x.continues_advance, hl.advance⟩
    · dsimp only [Memory.answer]
      rcases Memory.remove_cases n name forced with ⟨y, hy, hfree, _, hr⟩ | ⟨e, hr⟩ <;> rw [hr]
      · obtain rfl : x = y := Option.some.inj (hx.symm.trans hy)
        exact .inl fun hk => hfree (hl.isLive hk)
      · exact .inr ⟨rfl, hn, x, hx, hl⟩
  obtain ⟨_, hforced | ⟨_, hn, x, hx, hl⟩, _⟩ := follows_run host h J step ha
    (.inr ⟨rfl, hm, k, hf, .refl k, .inl rfl⟩)
  · exact .inl hforced
  · exact .inr ⟨x, hl.akin.name ▸ hn.get?_of_find? hx, hl⟩

/-- A call that turns containers from one state into another, however often it is made. -/
private theorem turned_run {c : Call} {s t : Status} (hst : s.canBecome t) (hne : t ≠ s)
    (turns : ∀ n : Memory, (Memory.answer c n).2 = n ∨ ∃ e, n.find? name = some e ∧ e.container.status = s ∧
      (Memory.answer c n).2 = n.put (e.turned t))
    {act : Act α} (ha : Stays (onlyCalls (· = c)) (fun _ => True) act ()) (hm : Sound m)
    (hf : m.find? name = some k) :
    ∃ k', (act.run.run (beside host) (h, m)).2.2.containers.get? k.container.name = some k' ∧ k.Akin k' ∧
      (k'.container.status = k.container.status ∨ k.container.status = s ∧ k'.container.status = t) := by
  let J (_ : Unit) (n : Memory) : Prop := Sound n ∧
    ∃ k', n.find? name = some k' ∧ (k' = k ∨ k.container.status = s ∧ k' = k.turned t)
  have step (u : Unit) (c' : Call) (n : Memory) (hc : (onlyCalls (· = c)).allows u c') (hJ : J u n) :
      J ((onlyCalls (· = c)).next u c' (Memory.answer c' n).1) (Memory.answer c' n).2 := by
    obtain ⟨hn, x, hx, hk⟩ := hJ
    obtain rfl : c' = c := hc
    rcases turns n with he | ⟨e, hfe, hse, he⟩ <;> rw [he]
    · exact ⟨hn, x, hx, hk⟩
    · obtain rfl : x = e := Option.some.inj (hx.symm.trans hfe)
      have hc : x.Continues (x.turned t) := Memory.Entry.continues_turned (hse ▸ hst)
      rcases hk with rfl | ⟨_, rfl⟩
      · exact ⟨hn.put hx hc, _, hn.find?_put hx hc, .inr ⟨hse, rfl⟩⟩
      · exact absurd hse hne
  obtain ⟨_, ⟨hn, x, hx, hk⟩, _⟩ := follows_run host h J step ha ⟨hm, k, hf, .inl rfl⟩
  have hget := hn.get?_of_find? hx
  rcases hk with rfl | ⟨hs, rfl⟩
  · exact ⟨x, hget, .refl x, .inl rfl⟩
  · exact ⟨_, hget, (Memory.Entry.continues_turned (hs ▸ hst)).toAkin, .inr ⟨hs, rfl⟩⟩

private theorem turns_pause (n : Memory) :
    (Memory.answer (.pause name) n).2 = n ∨ ∃ e, n.find? name = some e ∧
      e.container.status = .running ∧ (Memory.answer (.pause name) n).2 = n.put (e.turned .paused) := by
  dsimp only [Memory.answer]
  cases hf : n.find? name with
  | none => exact .inl (congrArg Prod.snd (Memory.withFound_of_find?_eq_none hf))
  | some e =>
    rw [Memory.pause_of_find? hf]
    split
    · next hs => exact .inr ⟨e, rfl, hs, rfl⟩
    · exact .inl rfl

private theorem turns_unpause (n : Memory) :
    (Memory.answer (.unpause name) n).2 = n ∨ ∃ e, n.find? name = some e ∧
      e.container.status = .paused ∧ (Memory.answer (.unpause name) n).2 = n.put (e.turned .running) := by
  dsimp only [Memory.answer]
  cases hf : n.find? name with
  | none => exact .inl (congrArg Prod.snd (Memory.withFound_of_find?_eq_none hf))
  | some e =>
    rw [Memory.unpause_of_find? hf]
    split
    · next hs => exact .inr ⟨e, rfl, hs, rfl⟩
    · exact .inl rfl

end Target

section Bystanders
variable {n : Memory}

/-- Of two containers that are filed one is told from the other by its name. -/
private theorem ne_of_find?_put (hn : Sound n) (hk : n.containers.get? k.container.name = some k) {x x' : Entry}
    (hx : n.find? name = some x) (hxk : x ≠ k) (hc : x.Continues x') : (n.put x').find? name ≠ some k := by
  rw [hn.find?_put hx hc]
  rintro hsame
  obtain rfl := Option.some.inj hsame
  refine hxk (Option.some.inj ?_)
  rw [← hn.get?_of_find? hx, ← hc.name, hk]

/-- A container that a name does not lead to, as long as it does not and the one that it leads to is there. -/
private structure Aside (m : Memory) (name : String) (k : Entry) (gone : Bool) (n : Memory) : Prop where
  sound : Sound n
  there : n.containers.get? k.container.name = some k
  image : n.images.get? k.container.image = m.images.get? k.container.image
  elsewhere : gone = false → n.find? name ≠ some k

/-- A call that leaves all containers but the one that the name leads to leaves the others aside. -/
private theorem Aside.call (hJ : Aside m name k false n) {c : Call} (hs : n.subject? c = n.find? name)
    (hc : (Memory.answer c n).2 = n ∨ ∃ x x', n.find? name = some x ∧ x.Continues x' ∧
      (Memory.answer c n).2 = n.put x') : Aside m name k false (Memory.answer c n).2 := by
  have hne := hJ.elsewhere rfl
  obtain ⟨hget, himage⟩ := hJ.sound.frame_of_call hJ.there (hs ▸ hne)
  refine ⟨hJ.sound.call c, hget, himage.trans hJ.image, fun _ => ?_⟩
  rcases hc with hsame | ⟨x, x', hx, hc, hput⟩
  · rw [hsame]
    exact hne
  · rw [hput]
    exact ne_of_find?_put hJ.sound hJ.there hx (fun hxk => hne (hxk ▸ hx)) hc

private theorem aside_step {forced : Bool} (gone : Bool) (c : Call) (n : Memory)
    (hc : (handling name forced).allows gone c) (hJ : Aside m name k gone n) :
    Aside m name k ((handling name forced).next gone c (Memory.answer c n).1) (Memory.answer c n).2 := by
  cases gone with
  | true =>
    obtain ⟨reference, rfl⟩ := hc
    obtain ⟨hget, himage⟩ := hJ.sound.frame_of_call (c := .removeImage reference) hJ.there nofun
    exact ⟨hJ.sound.call _, hget, himage.trans hJ.image, nofun⟩
  | false =>
    rcases hc with rfl | rfl | rfl | rfl | rfl
    · refine hJ.call rfl ?_
      dsimp only [Memory.answer]
      cases hf : n.find? name with
      | none => exact .inl (by rw [Memory.inspect_of_find?_eq_none hf])
      | some x => exact .inr ⟨x, _, rfl, x.continues_advance, by rw [Memory.inspect_of_find? hf]⟩
    · refine hJ.call rfl ((turns_pause n).imp_right ?_)
      rintro ⟨x, hx, hs, hput⟩
      exact ⟨x, _, hx, Memory.Entry.continues_turned (hs ▸ rfl), hput⟩
    · refine hJ.call rfl ((turns_unpause n).imp_right ?_)
      rintro ⟨x, hx, hs, hput⟩
      exact ⟨x, _, hx, Memory.Entry.continues_turned (hs ▸ rfl), hput⟩
    · refine hJ.call rfl ?_
      dsimp only [Memory.answer]
      cases hf : n.find? name with
      | none => exact .inl (congrArg Prod.snd (Memory.withFound_of_find?_eq_none hf))
      | some x =>
        rw [Memory.kill_of_find? hf]
        split
        · next hl => exact .inr ⟨x, _, rfl, Memory.Entry.continues_turned (Memory.canBecome_exited hl), rfl⟩
        · exact .inl rfl
    · have hne := hJ.elsewhere rfl
      obtain ⟨hget, himage⟩ := hJ.sound.frame_of_call (c := .remove name forced) hJ.there hne
      have hm := hJ.sound.call (.remove name forced)
      dsimp only [Memory.answer] at hget himage hm ⊢
      rcases Memory.remove_cases n name forced with ⟨x, hx, _, _, hr⟩ | ⟨e, hr⟩ <;> rw [hr] at hget himage hm ⊢
      · exact ⟨hm, hget, himage.trans hJ.image, nofun⟩
      · exact hJ

/-- An operation that handles the container of its name leaves all others alone. -/
private theorem aside_run {forced : Bool} {act : Act α} (ha : Follows (handling name forced) act false fun _ _ => True)
    (hm : Sound m) (hk : m.containers.get? k.container.name = some k) (hne : m.find? name ≠ some k) :
    (act.run.run (beside host) (h, m)).2.2.containers.get? k.container.name = some k ∧
      (act.run.run (beside host) (h, m)).2.2.images.get? k.container.image = m.images.get? k.container.image := by
  obtain ⟨_, hJ, _⟩ := follows_run host h (Aside m name k) aside_step ha ⟨hm, hk, rfl, fun _ => hne⟩
  exact ⟨hJ.there, hJ.image⟩

end Bystanders

section Straying

/-- A container as it was, but that it may have come to run. -/
structure Raised (k k' : Entry) : Prop where
  akin : k.Akin k'
  status : k'.container.status = k.container.status ∨
    k.container.status.canBecome .running ∧ k'.container.status = .running

theorem Raised.refl (k : Entry) : Raised k k := ⟨.refl k, .inl rfl⟩

theorem Raised.trans {k' k'' : Entry} (h : Raised k k') (h' : Raised k' k'') : Raised k k'' := by
  refine ⟨h.akin.trans h'.akin, ?_⟩
  rcases h'.status with hs' | ⟨hc, hs'⟩
  · rw [hs']
    exact h.status
  · rcases h.status with hs | ⟨hc₀, _⟩
    · exact .inr ⟨hs ▸ hc, hs'⟩
    · exact .inr ⟨hc₀, hs'⟩

theorem raised_advance (k : Entry) : Raised k k.advance := by
  refine ⟨k.continues_advance.toAkin, ?_⟩
  rcases k.advance_cases with ha | ⟨_, _, ha⟩ | ⟨hs, ha⟩ <;> rw [ha]
  · exact .inl rfl
  · exact .inl rfl
  · exact .inr ⟨hs ▸ rfl, rfl⟩

theorem raised_started (k : Entry) (delay : Option Nat) : Raised k (k.started delay) := by
  refine ⟨(k.continues_started delay).toAkin, ?_⟩
  unfold Entry.started
  split
  · split
    · next hc => exact .inr ⟨hc, rfl⟩
    · exact .inl rfl
  · exact .inl rfl

/-- What an inspection or a start does to a container, if it comes upon it. -/
theorem raised_of_call {n : Memory} (hn : Sound n) (hk : n.containers.get? k.container.name = some k) {c : Call}
    (hc : c = .start name ∨ c = .inspect name) : ∃ k', (Memory.answer c n).2.containers.get? k.container.name = some k' ∧
      Raised k k' ∧ (n.subject? c ≠ some k → k' = k) := by
  by_cases hs : n.subject? c = some k
  case neg => exact ⟨k, (hn.frame_of_call hk hs).1, .refl k, fun _ => rfl⟩
  have put {k' : Entry} (hr : Raised k k') : (n.put k').containers.get? k.container.name = some k' := by
    rw [Memory.put, hr.akin.name]
    exact SortedMap.get?_insert_self ..
  rcases hc with rfl | rfl
  · obtain ⟨first, ha⟩ := Memory.subject?_start_iff.1 hs
    dsimp only [Memory.answer]
    rcases Memory.start_cases n name with ⟨first', e, ha', hstopped, hfree⟩ | hsame
    · obtain ⟨rfl, rfl⟩ := ha.unique ha'
      rw [ha.start_of_free hstopped hfree]
      exact ⟨_, put (raised_started k _), raised_started k _, fun hne => absurd hs hne⟩
    · rw [hsame]
      exact ⟨k, hk, .refl k, fun _ => rfl⟩
  · dsimp only [Memory.answer]
    rw [Memory.inspect_of_find? hs]
    exact ⟨_, put (raised_advance k), raised_advance k, fun hne => absurd hs hne⟩

/-- A start of the name may go on to the container from another one: the name is its identifier, or that of a container
whose own name is its identifier. -/
def LeadsOn (m : Memory) (name : String) (k : Entry) : Prop := k.container.id.text = name ∨
  ∃ n y, m.containers.get? n = some y ∧ y.container.id.text = name ∧ k.container.id.text = n

/-- Where a start stands with a container that its name does not lead to at first. -/
private structure Bypasses (m : Memory) (name : String) (k : Entry) (s : Stage) (n : Memory) : Prop where
  sound : Sound n
  before : ∀ n' x, n.containers.get? n' = some x → n' = name ∨
    ∃ y, m.containers.get? n' = some y ∧ y.container.id = x.container.id
  there : ∃ k', n.containers.get? k.container.name = some k' ∧ Raised k k' ∧
    (k' ≠ k → s = .created ∧ LeadsOn m name k)
  elsewhere : s = .checking → n.find? name ≠ some k
  apart : s = .created → k.container.name ≠ name

variable {n : Memory} {s : Stage}

private theorem Bypasses.get? (hJ : Bypasses m name k s n) (hs : s ≠ .created) :
    n.containers.get? k.container.name = some k := by
  obtain ⟨k', hk', -, hchanged⟩ := hJ.there
  obtain rfl : k' = k := Classical.not_not.1 fun hne => hs (hchanged hne).1
  exact hk'

/-- Every container but that of the name was there before. -/
private theorem Bypasses.before_call (hJ : Bypasses m name k s n) {c : Call} (hc : ∀ spec, c = .create spec → spec.name = name)
    (n' : String) (x : Entry) (hx : (Memory.answer c n).2.containers.get? n' = some x) : n' = name ∨
      ∃ y, m.containers.get? n' = some y ∧ y.container.id = x.container.id := by
  rcases (Memory.effect_of_operation hJ.sound (.call c)).before hx with ⟨y, hy, hcont⟩ | ⟨spec, hop, _, rfl⟩
  · refine (hJ.before n' y hy).imp_right ?_
    rintro ⟨z, hz, hid⟩
    exact ⟨z, hz, hid.trans hcont.id.symm⟩
  · exact .inl (((hJ.sound.call c).filed hx).symm.trans (hc spec (Memory.Operation.call.inj hop)))

/-- Inspections and starts come upon the container only by way of identifiers. -/
private theorem Bypasses.leadsOn (hJ : Bypasses m name k .created n) {x : Entry} (hx : Raised k x)
    (hget : n.containers.get? x.container.name = some x) {c : Call} (hc : c = .start name ∨ c = .inspect name)
    (hs : n.subject? c = some x) : LeadsOn m name k := by
  have hname : x.container.name ≠ name := hx.akin.name ▸ hJ.apart rfl
  have found (hf : n.find? name = some x) : LeadsOn m name k :=
    .inl (hx.akin.id ▸ (hJ.sound.name_or_id_of_find? hf).resolve_left hname)
  rcases hc with rfl | rfl
  · obtain ⟨first, ha⟩ := Memory.subject?_start_iff.1 hs
    have hfirst := hJ.sound.get?_of_find? ha.found
    rcases hJ.sound.name_or_id_of_find? ha.again with hsame | hid
    · rw [← hsame] at hfirst
      obtain rfl : first = x := Option.some.inj (hfirst.symm.trans hget)
      exact found ha.found
    · rw [hx.akin.id] at hid
      rcases hJ.before _ _ hfirst with hn | ⟨y, hy, hyid⟩
      · exact .inl (hid.trans hn)
      · rcases hJ.sound.name_or_id_of_find? ha.found with hn | hfirstId
        · exact .inl (hid.trans hn)
        · exact .inr ⟨_, y, hy, hyid ▸ hfirstId, hid⟩
  · exact found hs

/-- As long as it was not started there is no way to the container but by the name, which leads elsewhere. -/
private theorem Bypasses.untouched (hJ : Bypasses m name k s n) (hstage : s ≠ .created) {c : Call}
    (hs : n.subject? c ≠ some k) (t : Stage) : ∃ k', (Memory.answer c n).2.containers.get? k.container.name = some k' ∧
      Raised k k' ∧ (k' ≠ k → t = .created ∧ LeadsOn m name k) :=
  ⟨k, (hJ.sound.frame_of_call (hJ.get? hstage) hs).1, .refl k, fun h => absurd rfl h⟩

section Calls
variable {forced : Bool} {pinned : UInt16}

private theorem Bypasses.inspected (hJ : Bypasses m name k .checking n) :
    Bypasses m name k ((stages name forced pinned).next .checking (.inspect name) (n.inspect name).1)
      (n.inspect name).2 := by
  have hne := hJ.elsewhere rfl
  have hbefore := hJ.before_call (c := .inspect name) nofun
  refine ⟨hJ.sound.call (.inspect name), hbefore, hJ.untouched (by decide) (c := .inspect name) hne _, fun _ => ?_,
    fun hs => ?_⟩
  · cases hf : n.find? name with
    | none =>
      rw [Memory.inspect_of_find?_eq_none hf, hf]
      nofun
    | some x =>
      rw [Memory.inspect_of_find? hf]
      exact ne_of_find?_put hJ.sound (hJ.get? (by decide)) hf (fun hxk => hne (hxk ▸ hf)) x.continues_advance
  · cases hf : n.find? name with
    | none =>
      rw [Memory.inspect_of_find?_eq_none hf] at hs
      cases hs
    | some x =>
      rw [Memory.inspect_of_find? hf] at hs
      cases hs

private theorem Bypasses.removed (hJ : Bypasses m name k .checking n) :
    Bypasses m name k ((stages name forced pinned).next .checking (.remove name forced) (n.remove name forced).1)
      (n.remove name forced).2 := by
  have hm := hJ.sound.call (.remove name forced)
  have hbefore := hJ.before_call (c := .remove name forced) nofun
  have hthere := hJ.untouched (by decide) (c := .remove name forced) (hJ.elsewhere rfl)
  dsimp only [Memory.answer] at hm hbefore hthere
  rcases Memory.remove_cases n name forced with ⟨x, hx, _, _, hr⟩ | ⟨e, hr⟩ <;> rw [hr] at hm hbefore hthere ⊢
  · exact ⟨hm, hbefore, hthere _, nofun, nofun⟩
  · exact hJ

private theorem Bypasses.added (hJ : Bypasses m name k .clear n) {spec : Container.Spec} (hspec : spec.name = name) :
    Bypasses m name k ((stages name forced pinned).next .clear (.create spec) (n.create spec).1) (n.create spec).2 := by
  subst hspec
  have hm := hJ.sound.call (.create spec)
  have hbefore := hJ.before_call (c := .create spec) fun spec' h => by rw [Call.create.inj h]
  have hthere := hJ.untouched (by decide) (c := .create spec) nofun
  dsimp only [Memory.answer] at hm hbefore hthere
  cases hn : n.containers.get? spec.name with
  | some e =>
    obtain ⟨text, hcreate⟩ := Memory.create_of_get? hn
    rw [hcreate] at hm hbefore hthere ⊢
    exact ⟨hm, hbefore, hthere _, nofun, nofun⟩
  | none =>
    rw [Memory.create_of_get?_eq_none hn] at hm hbefore hthere ⊢
    refine ⟨hm, hbefore, hthere _, nofun, fun _ hname => ?_⟩
    have hk := hJ.get? (by decide)
    rw [hname, hn] at hk
    cases hk

private theorem Bypasses.launched (hJ : Bypasses m name k .created n) {c : Call}
    (hc : c = .start name ∨ c = .inspect name) : Bypasses m name k .created (Memory.answer c n).2 := by
  obtain ⟨x, hx, hraised, hkept⟩ := hJ.there
  rw [← hraised.akin.name] at hx
  obtain ⟨x', hx', hraised', hkept'⟩ := raised_of_call hJ.sound hx hc
  have hbefore := hJ.before_call (c := c) (by rcases hc with rfl | rfl <;> nofun)
  refine ⟨hJ.sound.call c, hbefore, ⟨x', hraised.akin.name ▸ hx', hraised.trans hraised', fun hne => ⟨rfl, ?_⟩⟩, nofun,
    fun _ => hJ.apart rfl⟩
  by_cases hsame : x = k
  · subst hsame
    exact hJ.leadsOn hraised hx hc (Classical.not_not.1 fun hs => hne (hkept' hs))
  · exact (hkept hsame).2

private theorem bypasses_step (s : Stage) (c : Call) (n : Memory) (hc : (stages name forced pinned).allows s c)
    (hJ : Bypasses m name k s n) :
    Bypasses m name k ((stages name forced pinned).next s c (Memory.answer c n).1) (Memory.answer c n).2 := by
  cases s with
  | checking =>
    rcases hc with (rfl | ⟨_, rfl⟩) | rfl | rfl
    · exact hJ
    · exact hJ
    · exact hJ.inspected
    · exact hJ.removed
  | clear =>
    obtain ⟨spec, rfl, hspec, _⟩ := hc
    exact hJ.added hspec
  | created =>
    have hnext : (stages name forced pinned).next .created c (Memory.answer c n).1 = .created := by
      rcases hc with rfl | rfl <;> rfl
    rw [hnext]
    exact hJ.launched hc

end Calls

private theorem bypasses_run {forced : Bool} {pinned : UInt16} {act : Act α} {Q : Except Error α → Stage → Prop}
    (ha : Follows (stages name forced pinned) act .checking Q) (hm : Sound m)
    (hk : m.containers.get? k.container.name = some k) (hne : m.find? name ≠ some k) :
    ∃ k', (act.run.run (beside host) (h, m)).2.2.containers.get? k.container.name = some k' ∧ Raised k k' ∧
      (k' ≠ k → LeadsOn m name k) := by
  have hbegin : Bypasses m name k .checking m :=
    ⟨hm, fun n' x hx => .inr ⟨x, hx, rfl⟩, ⟨k, hk, .refl k, fun h => absurd rfl h⟩, fun _ => hne, nofun⟩
  obtain ⟨_, hJ, _⟩ := follows_run host h (Bypasses m name k) bypasses_step ha hbegin
  obtain ⟨k', hk', hr, hchanged⟩ := hJ.there
  exact ⟨k', hk', hr, fun h => (hchanged h).2⟩

end Straying

/-- The operation may go on to a container that its name does not lead to. -/
def Operation.MayGoOnTo (m : Memory) : Operation → Entry → Prop
  | start _ o, k => LeadsOn m o.name k
  | clean _ _, _ | destroy _, _ | pause _, _ | resume _, _ => False

/-- Every operation but a start handles the container of its name. -/
private theorem Operation.follows_handling (op : Operation) (hop : ∀ p o, op ≠ .start p o) :
    ∃ forced, Follows (handling op.name forced) op.perform false fun _ _ => True := by
  have unit {name : String} {act : Act (Option String)} (ha : Follows (handling name false) act false fun _ _ => True) :
      Follows (handling name false) (do let _ ← act) false fun _ _ => True := by
    refine follows_bind.2 (ha.mono fun r _ _ => ?_)
    cases r <;> trivial
  cases op with
  | start p o => exact absurd rfl (hop p o)
  | clean name forced => exact ⟨forced, handles_clean⟩
  | destroy name => exact ⟨false, unit handles_destroy⟩
  | pause name => exact ⟨false, unit handles_pause⟩
  | resume name => exact ⟨false, unit handles_resume⟩

private theorem Operation.leaves_others (op : Operation) (hm : Sound m)
    (hk : m.containers.get? k.container.name = some k) (hne : m.find? op.name ≠ some k) :
    (op.after host h m).images.get? k.container.image = m.images.get? k.container.image ∧
      ∃ k', (op.after host h m).containers.get? k.container.name = some k' ∧ Raised k k' ∧
        (k' ≠ k → op.MayGoOnTo m k) := by
  by_cases hstart : ∃ p o, op = .start p o
  · obtain ⟨p, o, rfl⟩ := hstart
    have himages : ((Operation.start p o).after host h m).images = m.images := Operation.images_after _ nofun
    exact ⟨by rw [himages], bypasses_run follows_perform_start hm hk hne⟩
  · obtain ⟨forced, ha⟩ := op.follows_handling fun p o hop => hstart ⟨p, o, hop⟩
    obtain ⟨hget, himage⟩ : (op.after host h m).containers.get? k.container.name = some k ∧
        (op.after host h m).images.get? k.container.image = m.images.get? k.container.image := aside_run ha hm hk hne
    exact ⟨himage, k, hget, .refl k, fun h => absurd rfl h⟩

private theorem Operation.reaches_found (op : Operation) (hm : Sound m) (hfound : m.find? op.name = some k) :
    op.MayRemove k ∨ ∃ k', (op.after host h m).containers.get? k.container.name = some k' ∧ k.Akin k' ∧
      (k'.container.status = k.container.status ∨ op.Turns k.container.status k'.container.status) := by
  cases op with
  | start p o =>
    rcases spared_run follows_perform_start hm hfound with hforced | ⟨k', hget, hlater⟩
    · exact .inl hforced
    · exact .inr ⟨k', hget, hlater.akin, hlater.status⟩
  | clean name forced =>
    have hclean : Follows (stages name forced 0) (Local.clean name forced) .checking _ := follows_clean
    rcases spared_run hclean hm hfound with hforced | ⟨k', hget, hlater⟩
    · exact .inl hforced
    · exact .inr ⟨k', hget, hlater.akin, hlater.status⟩
  | destroy name => exact .inl trivial
  | pause name =>
    exact .inr (turned_run rfl (by decide) turns_pause (stays_pause.bind fun _ => stays_pure) hm hfound)
  | resume name =>
    exact .inr (turned_run rfl (by decide) turns_unpause (stays_resume.bind fun _ => stays_pure) hm hfound)

/-- An operation leaves every container alone that its name does not lead to, with the image it was created from; only
a start may go on to one by way of identifiers, and then lets it run at the most. The container that its name leads to,
marked or not, is taken away or changed only as the operation has it. -/
theorem Operation.reaches_its_name_only (op : Operation) (hm : Reachable m)
    (hk : m.containers.get? k.container.name = some k) :
    (m.find? op.name ≠ some k →
      (op.after host h m).images.get? k.container.image = m.images.get? k.container.image ∧
      ∃ k', (op.after host h m).containers.get? k.container.name = some k' ∧ Raised k k' ∧
        (k' ≠ k → op.MayGoOnTo m k)) ∧
    (m.find? op.name = some k → op.MayRemove k ∨ ∃ k',
      (op.after host h m).containers.get? k.container.name = some k' ∧ k.Akin k' ∧
        (k'.container.status = k.container.status ∨ op.Turns k.container.status k'.container.status)) ∧
    ((∀ name, op ≠ .destroy name) → (op.after host h m).images = m.images) :=
  ⟨op.leaves_others hm.sound hk, op.reaches_found hm.sound, op.images_after⟩

/-- A runtime with a database that somebody else runs, before it was started. -/
private def idle : Memory :=
  (Memory.answer (.create { name := "db", image := "postgres:16" })
    (({} : Memory).addImage "postgres:16" ∅ default)).2

/-- A runtime with a database that somebody else runs. -/
def foreign : Memory := (Memory.answer (.start "db") idle).2

/-- The database. -/
def database : Entry := ((foreign.find? "db").getD default)

theorem reachable_foreign : Reachable foreign :=
  .call (.call (.step .empty (.addImage "postgres:16" ∅ default)) _) _

/-- Without this library's mark the database is no environment, and still it is destroyed with its image. -/
theorem destroy_reaches_foreign : ∃ m k, Reachable m ∧ m.containers.get? k.container.name = some k ∧
    Label.isOwned k.container.labels = false ∧
    Ends (beside stillHost) (environment k.container.name) ((), m)
      (.error (.environmentNotFound k.container.name)) ((), m) ∧
    ((Operation.destroy k.container.name).after stillHost () m).containers.get? k.container.name = none ∧
    ((Operation.destroy k.container.name).after stillHost () m).images.get? k.container.image = none :=
  ⟨foreign, database, reachable_foreign, by decide, by decide, rfl, by decide, by decide⟩

/-- Unless it is forced, cleaning spares the database, and no other name leads to it. -/
theorem reaches_its_name_only_foreign :
    ((Operation.destroy "mnist").after stillHost () foreign).containers.get? "db" = some database ∧
      ∃ k, ((Operation.clean "db" false).after stillHost () foreign).containers.get? "db" = some k ∧
        database.Akin k := by
  have hk : foreign.containers.get? database.container.name = some database := by decide
  constructor
  · obtain ⟨_, k, hget, _, hchanged⟩ :=
      (Operation.reaches_its_name_only (.destroy "mnist") reachable_foreign hk).1 (by decide)
    obtain rfl : k = database := Classical.not_not.1 hchanged
    exact hget
  · rcases (Operation.reaches_its_name_only (.clean "db" false) reachable_foreign hk).2.1 (by decide) with
      hmay | ⟨k, hget, ha, _⟩
    · exact absurd (hmay (by decide)) nofun
    · exact ⟨k, hget, ha⟩

end DevEnv.Local
