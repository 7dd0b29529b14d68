import DevEnv.Proofs.Local.Sequence
import DevEnv.Proofs.Local.Stages
import Mathlib.Logic.Function.Basic
import Mathlib.Logic.Relation

/-! Two starts of one name that call a runtime in turns, each call being one step.
The name settles them as long as neither takes away what the other one has created in the meantime. -/
namespace DevEnv.Local
open DevEnv.Action
open DevEnv.Runtime (Call Memory)
open DevEnv.Runtime.Memory (Entry Kin Reachable Sound Undisputed)
open Relation (ReflTransGen)

/-- One of two starts. -/
inductive Side where
  | left
  | right
  deriving DecidableEq

def Side.other : Side → Side
  | left => right
  | right => left

theorem Side.eq_other_of_ne {x y : Side} (h : x ≠ y) : x = y.other := by
  cases x <;> cases y <;> first | rfl | exact absurd rfl h

/-- What happens to the containers of a name: a start creates one, or takes one away. -/
inductive Event where
  | created (x : Side)
  | removed (x : Side)
  deriving DecidableEq

def Event.ofCall (x : Side) : (c : Call) → Except Runtime.Error c.Reply → List Event
  | .create _, .ok _ => [.created x]
  | .remove _ _, .ok _ => [.removed x]
  | _, _ => []

/-- What is left of a start. -/
abbrev Racer : Type := Program (Host.interface.sum Runtime.interface) (Except Error Started)

/-- Two starts that call one runtime, and what has happened so far. -/
structure Race where
  programs : Side → Racer
  memory : Memory
  events : List Event

namespace Race

/-- A call of one side is answered from memory, and the side goes on with the answer. -/
def called (r : Race) (x : Side) (c : Call) (next : Except Runtime.Error c.Reply → Racer) : Race :=
  { programs := Function.update r.programs x (next (Memory.answer c r.memory).1)
    memory := (Memory.answer c r.memory).2
    events := r.events ++ Event.ofCall x c (Memory.answer c r.memory).1 }

/-- One side goes on: its host answers as it likes, or it makes a call. -/
inductive Step (r : Race) : Race → Prop where
  | host {q : Host.Query} {next : q.Answer → Racer} (x : Side)
      (asks : r.programs x = .ask (.inl q) next) (a : q.Answer) :
      Step r { r with programs := Function.update r.programs x (next a) }
  | call {c : Call} {next : Except Runtime.Error c.Reply → Racer} (x : Side)
      (asks : r.programs x = .ask (.inr c) next) :
      Step r (r.called x c next)

/-- Two starts that have not begun. -/
def begin (p : Side → Engine.Patience) (o : Side → Options) (m : Memory) : Race :=
  { programs := fun x => (start (p x) (o x)).run, memory := m, events := [] }

/-- The other side has taken away the container that one side created. -/
def Undone (x : Side) (events : List Event) : Prop := List.Sublist [.created x, .removed x.other] events

instance (x : Side) (events : List Event) : Decidable (Undone x events) :=
  inferInstanceAs (Decidable (List.Sublist _ _))

/-- At most one side has succeeded, and its port for SSH is that of the container of the name. -/
structure Settled (name : String) (r : Race) : Prop where
  single : ∀ s t, r.programs .left = .done (.ok s) → r.programs .right ≠ .done (.ok t)
  bound : ∀ x s, r.programs x = .done (.ok s) →
    ∃ k, r.memory.containers.get? name = some k ∧ Container.ReachedAt k.container.bindings s.sshPort

section Events
variable {x y : Side} {events : List Event}

/-- The side whose container has the name: that of the last one to create, unless it was taken away. -/
def holder (events : List Event) : Option Side :=
  events.foldl (fun _ e => match e with
    | .created x => some x
    | .removed _ => none) none

theorem holder_created : holder (events ++ [.created x]) = some x := by simp [holder]

theorem holder_removed : holder (events ++ [.removed x]) = none := by simp [holder]

theorem undone_concat {e : Event} : Undone x (events ++ [e]) ↔
    Undone x events ∨ .created x ∈ events ∧ e = .removed x.other := by
  unfold Undone
  constructor
  · intro h
    obtain ⟨l, l', hl, hs, hs'⟩ := List.sublist_append_iff.1 h
    cases hs' with
    | cons _ hnil =>
      rw [List.sublist_nil.1 hnil, List.append_nil] at hl
      exact .inl (hl ▸ hs)
    | cons_cons _ hnil =>
      rw [List.sublist_nil.1 hnil] at hl
      have hsplit : [Event.created x] ++ [.removed x.other] = l ++ [e] := hl
      obtain ⟨rfl, he⟩ := List.append_inj' hsplit rfl
      exact .inr ⟨List.singleton_sublist.1 hs, (List.singleton_inj.1 he).symm⟩
  · rintro (h | ⟨h, rfl⟩)
    · exact h.trans (List.sublist_append_left _ _)
    · exact (List.singleton_sublist.2 h).append (.refl _)

theorem Undone.mem (h : Undone x events) : .created x ∈ events := h.subset List.mem_cons_self

end Events

section Invariant
variable {name : String} {o : Side → Options} {stage : Side → Stage} {r : Race} {x : Side} {m : Memory}

/-- A start of a race succeeds only after it has created a container, and with its own port for SSH. -/
def Finishes (o : Options) (result : Except Error Started) (s : Stage) : Prop :=
  ∀ t, result = .ok t → s = .created ∧ t.sshPort = o.sshPort

/-- The protocol of a start of a name. -/
abbrev protocol (name : String) (o : Options) : Protocol Runtime.interface Stage := stages name o.forced o.sshPort

/-- What is left of a start keeps to its protocol from a stage on. -/
abbrev OnCourse (name : String) (o : Options) (p : Racer) (s : Stage) : Prop :=
  p.Follows (protocol name o).hosted (Finishes o) s

/-- What holds throughout a race: both sides keep to their stages, and the name is held by the side
that has created a container of it, unless that container was taken away. A container that the name identifies, and
that has another one, is gone as soon as one side has cleaned. -/
structure Inv (name : String) (o : Side → Options) (stage : Side → Stage) (r : Race) : Prop where
  sound : Sound r.memory
  follows : ∀ x, OnCourse name (o x) (r.programs x) (stage x)
  made : ∀ x, .created x ∈ r.events ↔ stage x = .created
  kept : ∀ x, holder r.events = some x ↔ .created x ∈ r.events ∧ ¬ Undone x r.events
  free : holder r.events = none → r.memory.containers.get? name = none
  held : ∀ x, holder r.events = some x → ∃ k, r.memory.containers.get? name = some k ∧
    Container.ReachedAt k.container.bindings (o x).sshPort
  sole : Undisputed r.memory name ∨ ∀ x, stage x = .checking

/-- As long as both sides have yet to clean, nothing has the name. -/
theorem Inv.free_of_checking (h : Inv name o stage r) (hs : ∀ x, stage x = .checking) :
    r.memory.containers.get? name = none := by
  refine h.free (Option.eq_none_iff_forall_ne_some.2 fun x hx => ?_)
  have hcreated := (h.made x).1 ((h.kept x).1 hx).1
  rw [hs x] at hcreated
  cases hcreated

/-- Where the container that the name leads to is taken away, nothing has the name or is identified by it any more. -/
theorem Inv.cleared (h : Inv name o stage r) {k : Entry} (hf : r.memory.find? name = some k) :
    (r.memory.containers.erase k.container.name).get? name = none ∧
      Undisputed { r.memory with containers := r.memory.containers.erase k.container.name } name := by
  have hk := h.sound.get?_of_find? hf
  rcases h.sole with hu | hs
  · refine ⟨?_, fun n x hx => hu n x (SortedMap.get?_of_get?_erase hx)⟩
    rw [h.sound.filed (hu.get?_of_find? hf)]
    exact SortedMap.get?_erase_self ..
  · -- the container is identified by the name, and identifiers are distinct
    have hfree := h.free_of_checking hs
    have hne : k.container.name ≠ name := by
      intro hname
      rw [hname, hfree] at hk
      cases hk
    have hid := (h.sound.name_or_id_of_find? hf).resolve_left hne
    refine ⟨(SortedMap.get?_erase_ne hne.symm).trans hfree, fun n x hx hidx => ?_⟩
    have hn : n = k.container.name :=
      h.sound.distinct (SortedMap.get?_of_get?_erase hx) hk (congrArg Identifier.mk (hidx.trans hid.symm))
    exact absurd hn (SortedMap.ne_of_get?_erase hx)

private theorem follows_update (h : Inv name o stage r) {p : Racer} {s : Stage} (hp : OnCourse name (o x) p s)
    (y : Side) : OnCourse name (o y) (Function.update r.programs x p y) (Function.update stage x s y) := by
  by_cases hy : y = x
  · subst hy
    simpa using hp
  · simpa [hy] using h.follows y

/-- A step without an event, after which the containers are the same ones. -/
private theorem Inv.quiet (h : Inv name o stage r) {p : Racer} {s : Stage} (hp : OnCourse name (o x) p s)
    (hs : s = .created ↔ stage x = .created) (hm : Sound m) (hkin : Kin r.memory m)
    (hsole : Undisputed r.memory name ∨ s = .checking) :
    Inv name o (Function.update stage x s)
      { programs := Function.update r.programs x p, memory := m, events := r.events } where
  sound := hm
  follows := follows_update h hp
  made y := by
    rw [h.made]
    by_cases hy : y = x
    · subst hy
      simp [hs]
    · simp [hy]
  kept := h.kept
  free hn := Option.eq_none_iff_forall_ne_some.2 fun k hk => by
    obtain ⟨k₀, hk₀, -⟩ := hkin.before hk
    exact nomatch (h.free hn).symm.trans hk₀
  held y hy := by
    obtain ⟨k, hk, hport⟩ := h.held y hy
    obtain ⟨k', hk', ha⟩ := hkin.later hk
    exact ⟨k', hk', ha.bindings ▸ hport⟩
  sole := by
    rcases h.sole with hu | hchecking
    · exact .inl (hkin.undisputed hu)
    refine hsole.imp hkin.undisputed fun hs' y => ?_
    by_cases hy : y = x
    · subst hy
      simpa using hs'
    · simpa [hy] using hchecking y

/-- A container of the name is taken away by a side that has created none yet. -/
private theorem Inv.removes (h : Inv name o stage r) {p : Racer} (hp : OnCourse name (o x) p .clear)
    (hx : stage x ≠ .created) (hm : Sound m) (hfree : m.containers.get? name = none) (hu : Undisputed m name) :
    Inv name o (Function.update stage x .clear)
      { programs := Function.update r.programs x p, memory := m, events := r.events ++ [.removed x] } where
  sound := hm
  follows := follows_update h hp
  made y := by
    simp only [List.mem_append, List.mem_singleton, reduceCtorEq, or_false, h.made]
    by_cases hy : y = x
    · subst hy
      simp [hx]
    · simp [hy]
  kept y := by
    rw [holder_removed]
    refine iff_of_false nofun ?_
    -- a side that has created one is the other side, which this event undoes
    rintro ⟨hc, hu⟩
    have hc : .created y ∈ r.events := by simpa using hc
    by_cases hy : x = y
    · subst hy
      exact hx ((h.made x).1 hc)
    · exact hu (undone_concat.2 (.inr ⟨hc, by rw [Side.eq_other_of_ne hy]⟩))
  free _ := hfree
  held y hy := by
    rw [holder_removed] at hy
    cases hy
  sole := .inl hu

/-- A side creates its container, and so no other one has the name. -/
private theorem Inv.creates (h : Inv name o stage r) {p : Racer} (hp : OnCourse name (o x) p .created)
    (hx : stage x ≠ .created) (hm : Sound m) (hfree : r.memory.containers.get? name = none) {k : Entry}
    (hk : m.containers.get? name = some k) (hport : Container.ReachedAt k.container.bindings (o x).sshPort)
    (hu : Undisputed m name) :
    Inv name o (Function.update stage x .created)
      { programs := Function.update r.programs x p, memory := m, events := r.events ++ [.created x] } where
  sound := hm
  follows := follows_update h hp
  made y := by
    simp only [List.mem_append, List.mem_singleton, Event.created.injEq, h.made]
    by_cases hy : y = x
    · subst hy
      simp
    · simp [hy]
  kept y := by
    rw [holder_created]
    by_cases hy : x = y
    · subst hy
      refine iff_of_true rfl ⟨by simp, fun hu => ?_⟩
      rcases undone_concat.1 hu with hu | ⟨_, he⟩
      · exact hx ((h.made x).1 hu.mem)
      · cases he
    · refine iff_of_false (by simpa using hy) ?_
      -- if the container of the other side were still there, the name would not be free
      rintro ⟨hc, hu⟩
      have hc : .created y ∈ r.events := by simpa [Ne.symm hy] using hc
      obtain ⟨k, hk, _⟩ := h.held y ((h.kept y).2 ⟨hc, fun hu' => hu (undone_concat.2 (.inl hu'))⟩)
      exact absurd (hfree.symm.trans hk) nofun
  free hn := by
    rw [holder_created] at hn
    cases hn
  held y hy := by
    rw [holder_created] at hy
    cases hy
    exact ⟨k, hk, hport⟩
  sole := .inl hu

section Calls
variable {c : Call} {next : Except Runtime.Error c.Reply → Racer} {s : Stage}

/-- The program of a side that made a call keeps to the stages after every answer. -/
private abbrev GoesOn (name : String) (o : Options) (s : Stage) (c : Call)
    (next : Except Runtime.Error c.Reply → Racer) : Prop :=
  ∀ a, OnCourse name o (next a) ((protocol name o).next s c a)

private theorem Inv.called_quiet (h : Inv name o stage r) (hs : stage x = s) (hnext : GoesOn name (o x) s c next)
    (hstage : (protocol name (o x)).next s c (Memory.answer c r.memory).1 = .created ↔ s = .created)
    (hkin : Kin r.memory (Memory.answer c r.memory).2)
    (hsole : Undisputed r.memory name ∨ (protocol name (o x)).next s c (Memory.answer c r.memory).1 = .checking)
    (hevents : Event.ofCall x c (Memory.answer c r.memory).1 = []) :
    ∃ stage', Inv name o stage' (r.called x c next) := by
  unfold called
  rw [hevents, List.append_nil]
  exact ⟨_, h.quiet (hnext _) (hs ▸ hstage) (h.sound.call c) hkin hsole⟩

/-- A call that is refused leads no start to its last stage. -/
private theorem next_error {o : Options} (s : Stage) (c : Call) (e : Runtime.Error) :
    (protocol name o).next s c (.error e) = .created ↔ s = .created := by
  cases s with
  | checking =>
    refine iff_of_false ?_ (by decide)
    intro h
    cases c with
    | inspect name' => cases e <;> cases h
    | _ => cases h
  | clear =>
    refine iff_of_false ?_ (by decide)
    intro h
    cases c <;> cases h
  | created => exact iff_of_true (by cases c <;> rfl) rfl

private theorem Inv.called_refused (h : Inv name o stage r) (hs : stage x = s) (hnext : GoesOn name (o x) s c next)
    {e : Runtime.Error} (ha : Memory.answer c r.memory = (.error e, r.memory))
    (hsole : Undisputed r.memory name ∨ (protocol name (o x)).next s c (.error e) = .checking) :
    ∃ stage', Inv name o stage' (r.called x c next) := by
  refine h.called_quiet hs hnext ?_ ?_ ?_ ?_ <;> rw [ha]
  · exact next_error s c e
  · exact .refl _
  · exact hsole
  · cases c <;> rfl

private theorem Inv.called_inspect {next : Except Runtime.Error Container → Racer} (h : Inv name o stage r)
    (hs : stage x = .checking) (hnext : GoesOn name (o x) .checking (.inspect name) next) :
    ∃ stage', Inv name o stage' (r.called x (.inspect name) next) := by
  have hkin : Kin r.memory (Memory.answer (.inspect name) r.memory).2 := h.sound.kin_of_call (.inr rfl)
  cases hf : r.memory.find? name with
  | none =>
    have ha : Memory.answer (.inspect name) r.memory = _ := Memory.inspect_of_find?_eq_none hf
    exact h.called_refused hs hnext ha (.inl (Memory.undisputed_of_find?_eq_none hf))
  | some k =>
    have ha : (Memory.answer (.inspect name) r.memory).1 = .ok k.advance.container :=
      congrArg Prod.fst (Memory.inspect_of_find? hf)
    refine h.called_quiet hs hnext ?_ hkin ?_ ?_ <;> rw [ha]
    · exact Iff.rfl
    · exact .inr rfl
    · rfl

private theorem Inv.called_checking (h : Inv name o stage r) (hs : stage x = .checking)
    (hc : (protocol name (o x)).allows .checking c) (hnext : GoesOn name (o x) .checking c next) :
    ∃ stage', Inv name o stage' (r.called x c next) := by
  rcases hc with (rfl | ⟨_, rfl⟩) | rfl | rfl
  · exact h.called_quiet hs hnext Iff.rfl (.refl _) (.inr rfl) rfl
  · exact h.called_quiet hs hnext Iff.rfl (.refl _) (.inr rfl) rfl
  · exact h.called_inspect hs hnext
  · rcases Memory.remove_cases r.memory name (o x).forced with ⟨k, hf, _, _, ha⟩ | ⟨e, ha⟩
    · obtain ⟨hfree, hu⟩ := h.cleared hf
      have hm := h.sound.erase k.container.name
      have hgo := hnext (.ok ())
      have ha : Memory.answer (.remove name (o x).forced) r.memory = _ := ha
      unfold called
      rw [ha]
      exact ⟨_, h.removes hgo (by rw [hs]; decide) hm hfree hu⟩
    · exact h.called_refused hs hnext ha (.inr rfl)

/-- When a side has cleaned, the name identifies no other container. -/
private theorem Inv.undisputed (h : Inv name o stage r) (hs : stage x ≠ .checking) : Undisputed r.memory name :=
  h.sole.resolve_right fun hall => hs (hall x)

private theorem Inv.called_clear (h : Inv name o stage r) (hport : (o x).sshPort ≠ 0) (hs : stage x = .clear)
    (hc : (protocol name (o x)).allows .clear c) (hnext : GoesOn name (o x) .clear c next) :
    ∃ stage', Inv name o stage' (r.called x c next) := by
  obtain ⟨spec, rfl, rfl, hbind⟩ := hc
  have hu := h.undisputed (x := x) (by rw [hs]; decide)
  cases hk : r.memory.containers.get? spec.name with
  | some k =>
    obtain ⟨text, hcreate⟩ := Memory.create_of_get? hk
    exact h.called_refused hs hnext hcreate (.inl hu)
  | none =>
    have ha : Memory.answer (.create spec) r.memory = _ := Memory.create_of_get?_eq_none hk
    have hm := h.sound.call (.create spec)
    have hgo := hnext (.ok ⟨Memory.hexId r.memory.nextId⟩)
    rw [ha] at hm
    have hu' : Undisputed (added r.memory spec) spec.name := by
      intro n e he hid
      rcases SortedMap.get?_insert_cases he with ⟨hn, _⟩ | hold
      · exact hn
      · exact hu n e hold hid
    unfold called
    rw [ha]
    exact ⟨_, h.creates hgo (by rw [hs]; decide) hm hk (SortedMap.get?_insert_self ..) (hbind hport) hu'⟩

private theorem Inv.called_created (h : Inv name o stage r) (hs : stage x = .created)
    (hc : (protocol name (o x)).allows .created c) (hnext : GoesOn name (o x) .created c next) :
    ∃ stage', Inv name o stage' (r.called x c next) := by
  have hu := h.undisputed (x := x) (by rw [hs]; decide)
  have hkin := h.sound.kin_of_call hc
  rcases hc with rfl | rfl
  · exact h.called_quiet hs hnext Iff.rfl hkin (.inl hu) rfl
  · exact h.called_quiet hs hnext Iff.rfl hkin (.inl hu) rfl

end Calls

/-- Whatever side goes on, the name stays settled among the sides. -/
theorem Inv.step (h : Inv name o stage r) (hport : ∀ x, (o x).sshPort ≠ 0) {r' : Race} (hstep : Step r r') :
    ∃ stage', Inv name o stage' r' := by
  cases hstep with
  | host x asks a =>
    have hf := h.follows x
    rw [asks] at hf
    exact ⟨_, h.quiet (hf.2 a) Iff.rfl h.sound (.refl _) (h.sole.imp_right (· x))⟩
  | @call c next x asks =>
    have hf := h.follows x
    rw [asks] at hf
    obtain ⟨hallowed, hnext⟩ := hf
    cases hs : stage x with
    | checking =>
      rw [hs] at hallowed hnext
      exact h.called_checking hs hallowed hnext
    | clear =>
      rw [hs] at hallowed hnext
      exact h.called_clear (hport x) hs hallowed hnext
    | created =>
      rw [hs] at hallowed hnext
      exact h.called_created hs hallowed hnext

theorem inv_begin {p : Side → Engine.Patience} (hm : Sound m) (hname : ∀ x, (o x).name = name)
    (hport : ∀ x, (o x).sshPort ≠ 0) (hfree : m.containers.get? name = none) :
    Inv name o (fun _ => .checking) (begin p o m) where
  sound := hm
  follows x := by
    have hf : Follows (protocol (o x).name (o x)) (start (p x) (o x)) .checking (Finishes (o x)) :=
      follows_start.mono fun _ _ h t ht => (h t ht).imp_right (· (hport x))
    rw [hname] at hf
    exact hf
  made _ := iff_of_false nofun nofun
  kept _ := iff_of_false nofun fun h => absurd h.1 nofun
  free _ := hfree
  held _ := nofun
  sole := .inr fun _ => rfl

theorem Inv.steps (hport : ∀ x, (o x).sshPort ≠ 0) {r' : Race} (h : ∃ stage, Inv name o stage r)
    (hsteps : ReflTransGen Step r r') : ∃ stage, Inv name o stage r' := by
  induction hsteps with
  | refl => exact h
  | tail _ hstep ih =>
    obtain ⟨_, hi⟩ := ih
    exact hi.step hport hstep

/-- A side that has succeeded has created a container, and with its own port for SSH. -/
theorem Inv.created_of_done (h : Inv name o stage r) {s : Started} (hx : r.programs x = .done (.ok s)) :
    .created x ∈ r.events ∧ s.sshPort = (o x).sshPort := by
  have hf := h.follows x
  rw [hx] at hf
  obtain ⟨hs, hport⟩ := hf s rfl
  exact ⟨(h.made x).2 hs, hport⟩

end Invariant

/-- Two starts of one name with different ports are settled by the runtime at every moment of every race,
except where one has taken away, in the meantime, the container of the other that reports success. -/
theorem settled_iff_not_undone {p : Side → Engine.Patience} {o : Side → Options} {name : String}
    {m : Memory} {r : Race} (hm : Reachable m) (hfree : m.containers.get? name = none)
    (hname : ∀ x, (o x).name = name) (hport : ∀ x, (o x).sshPort ≠ 0)
    (hne : (o .left).sshPort ≠ (o .right).sshPort)
    (hr : ReflTransGen Step (begin p o m) r) :
    Settled name r ↔ ∀ x s, r.programs x = .done (.ok s) → ¬ Undone x r.events := by
  obtain ⟨stage, h⟩ := Inv.steps hport ⟨_, inv_begin hm.sound hname hport hfree⟩ hr
  have same : ∀ x y, (o x).sshPort = (o y).sshPort → x = y := by
    intro x y hxy
    cases x <;> cases y <;> first | rfl | exact absurd hxy hne | exact absurd hxy.symm hne
  constructor
  -- the container of the name tells by its port who holds it, and a side undone does not
  · intro hset x s hx hundone
    obtain ⟨_, hs⟩ := h.created_of_done hx
    obtain ⟨k, hk, hreached⟩ := hset.bound x s hx
    cases hh : holder r.events with
    | none => exact absurd ((h.free hh).symm.trans hk) nofun
    | some y =>
      obtain ⟨k', hk', hreached'⟩ := h.held y hh
      obtain rfl : k = k' := Option.some.inj (hk.symm.trans hk')
      obtain rfl := same x y (hs.symm.trans (hreached.unique hreached'))
      exact ((h.kept x).1 hh).2 hundone
  · intro hkept
    have holds : ∀ x s, r.programs x = .done (.ok s) → holder r.events = some x := fun x s hx =>
      (h.kept x).2 ⟨(h.created_of_done hx).1, hkept x s hx⟩
    refine ⟨fun s t hl hright => ?_, fun x s hx => ?_⟩
    · have hboth := (holds .left s hl).symm.trans (holds .right t hright)
      cases hboth
    · rw [(h.created_of_done hx).2]
      exact h.held x (holds x s hx)

/-- One side goes on as far as its next question, with a host that stands still. -/
def turn (r : Race) (x : Side) : Race :=
  match r.programs x with
  | .ask (.inl q) next => { r with programs := Function.update r.programs x (next (stillHost q ()).1) }
  | .ask (.inr c) next => r.called x c next
  | _ => r

/-- The sides take their turns in a given order. -/
def play (r : Race) (turns : List Side) : Race := turns.foldl turn r

theorem reaches_turn (r : Race) (x : Side) : ReflTransGen Step r (r.turn x) := by
  unfold turn
  split
  · next asks => exact .single (.host x asks _)
  · next asks => exact .single (.call x asks)
  · exact .refl

theorem reaches_play (r : Race) (turns : List Side) : ReflTransGen Step r (r.play turns) := by
  induction turns generalizing r with
  | nil => exact .refl
  | cons x turns ih => exact (reaches_turn r x).trans (ih (r.turn x))

/-- Two starts of a name that differ in their ports. -/
def rivals (x : Side) : Options :=
  { image := some "mnist:dev", name := "mnist", buildContext := "/home/me/mnist"
    sshPort := match x with
      | .left => 10001
      | .right => 10002
    source := .docker (some {}) [] }

/-- The race of the two on an empty runtime, in a given order. -/
def contest (turns : List Side) : Race := (begin (fun _ => ⟨⟨0⟩, 10⟩) rivals {}).play turns

theorem reaches_contest (turns : List Side) :
    ReflTransGen Step (begin (fun _ => ⟨⟨0⟩, 10⟩) rivals {}) (contest turns) :=
  reaches_play _ turns

/-- The right side does all that it has to do while the left one has created its container and not started it. -/
def overtaking : List Side := List.replicate 2 .left ++ List.replicate 8 .right ++ List.replicate 5 .left

/-- The left side has created its container and starts it before the right one looks. -/
def yielding : List Side := List.replicate 3 .left ++ List.replicate 1 .right ++ List.replicate 4 .left

theorem rivals_both_succeed : ∃ p o name m r, Reachable m ∧ m.containers.get? name = none ∧
    (∀ x, (o x).name = name ∧ (o x).forced = false ∧ (o x).sshPort ≠ 0) ∧
    (o .left).sshPort ≠ (o .right).sshPort ∧
    ReflTransGen Step (begin p o m) r ∧ (∀ x, ∃ s, r.programs x = .done (.ok s)) ∧ ¬ Settled name r := by
  refine ⟨_, rivals, "mnist", {}, contest overtaking, .empty, rfl, fun x => ?_, by decide,
    reaches_contest _, fun x => ?_, ?_⟩
  · cases x <;> decide
  · cases x <;> exact ⟨_, rfl⟩
  · exact fun h => h.single _ _ rfl rfl

theorem settled_iff_not_undone_rivals :
    Settled "mnist" (contest yielding) ∧ ¬ Settled "mnist" (contest overtaking) := by
  have hport : ∀ x, (rivals x).sshPort ≠ 0 := by
    intro x
    cases x <;> decide
  have settled (turns : List Side) : Settled "mnist" (contest turns) ↔
      ∀ x s, (contest turns).programs x = .done (.ok s) → ¬ Undone x (contest turns).events :=
    settled_iff_not_undone .empty rfl (fun _ => rfl) hport (by decide) (reaches_contest turns)
  have kept : (contest yielding).events = [.created .left] := rfl
  have taken : (contest overtaking).events = [.created .left, .removed .right, .created .right] := rfl
  rw [settled, settled, kept, taken]
  refine ⟨fun x _ _ => ?_, fun h => h .left _ rfl (by decide)⟩
  cases x <;> decide

end Race
end DevEnv.Local
