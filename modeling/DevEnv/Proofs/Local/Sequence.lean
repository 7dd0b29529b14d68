import DevEnv.Proofs.Local.Parts
import DevEnv.Proofs.Memory.Reachable

/-! Runs of operations beside a host, with nobody else calling the runtime in memory.
What a start has done when it ends is told by its parts. -/
namespace DevEnv.Local
open DevEnv.Action
open DevEnv.Runtime (Call Memory)
open DevEnv.Runtime.Memory (Entry Kin Sound Undisputed)

/-- A host is answered by what a machine with a state shows; calls are answered from memory. -/
def beside {τ : Type} (host : (q : Host.Query) → τ → q.Answer × τ) :
    (q : (Host.interface.sum Runtime.interface).Query) → τ × Memory →
      (Host.interface.sum Runtime.interface).Answer q × (τ × Memory)
  | .inl q, (h, m) => ((host q h).1, (host q h).2, m)
  | .inr c, (h, m) => ((Memory.answer c m).1, h, (Memory.answer c m).2)

/-- A host whose clock stands still, with one free port and a patient user. -/
def stillHost : (q : Host.Query) → Unit → q.Answer × Unit
  | .now, _ => (⟨0⟩, ())
  | .sleep _, _ => ((), ())
  | .cancelled, _ => (false, ())
  | .freePort, _ => (.ok 40001, ())

section Runs
variable {τ α σ : Type} {host : (q : Host.Query) → τ → q.Answer × τ} {h h' : τ} {m m' : Memory}

/-- A call is answered and the answer is looked at. -/
theorem ends_attempt {c : Call} {f : Except Runtime.Error c.Reply → Act α} {r : Except Error α}
    {w : τ × Memory} :
    Ends (beside host) (attempt c >>= f) (h, m) r w ↔
      Ends (beside host) (f (Memory.answer c m).1) (h, (Memory.answer c m).2) r w := Iff.rfl

/-- A call whose failure ends the action. -/
theorem ends_call {c : Call} {r : Except Error c.Reply} {w : τ × Memory} :
    Ends (beside host) (call c) (h, m) r w ↔
      r = (Memory.answer c m).1.mapError .runtime ∧ w = (h, (Memory.answer c m).2) := by
  unfold call
  rw [ends_attempt, ends_ofExcept]

/-- An inspection of a name that leads nowhere. -/
theorem ends_inspect_absent {name : String} {f : Except Runtime.Error Container → Act α} {r : Except Error α}
    {w : τ × Memory} (hf : m.find? name = none)
    (he : Ends (beside host) (f (.error (.notFound name))) (h, m) r w) :
    Ends (beside host) (attempt (.inspect name) >>= f) (h, m) r w := by
  rw [ends_attempt]
  dsimp only [Memory.answer]
  rwa [Memory.inspect_of_find?_eq_none hf]

/-- An inspection of a container counts as a step towards running. -/
theorem ends_inspect_found {name : String} {k : Entry} {f : Except Runtime.Error Container → Act α}
    {r : Except Error α} {w : τ × Memory} (hf : m.find? name = some k)
    (he : Ends (beside host) (f (.ok k.advance.container)) (h, m.put k.advance) r w) :
    Ends (beside host) (attempt (.inspect name) >>= f) (h, m) r w := by
  rw [ends_attempt]
  dsimp only [Memory.answer]
  rwa [Memory.inspect_of_find? hf]

/-- Whatever the host shows, a run keeps in memory what every allowed call keeps. -/
theorem follows_run (host : (q : Host.Query) → τ → q.Answer × τ) (h : τ)
    {P : Protocol Runtime.interface σ} {act : Act α} {s : σ} {Q : Except Error α → σ → Prop}
    (J : σ → Memory → Prop)
    (step : ∀ s c m, P.allows s c → J s m → J (P.next s c (Memory.answer c m).1) (Memory.answer c m).2)
    (ha : Follows P act s Q) (hJ : J s m) :
    ∃ t, J t (act.run.run (beside host) (h, m)).2.2 ∧
      ∀ r, (act.run.run (beside host) (h, m)).1 = some r → Q r t := by
  refine Program.Follows.run (fun s (w : τ × Memory) => J s w.2) ?_ ha hJ
  rintro s (q | c) ⟨h, m⟩ hq hJ
  · exact hJ
  · exact step s c m hq hJ

theorem follows_ends {P : Protocol Runtime.interface σ} {act : Act α} {s : σ} {Q : Except Error α → σ → Prop}
    (J : σ → Memory → Prop)
    (step : ∀ s c m, P.allows s c → J s m → J (P.next s c (Memory.answer c m).1) (Memory.answer c m).2)
    (ha : Follows P act s Q) (hJ : J s m) {r : Except Error α} {w : τ × Memory}
    (he : Ends (beside host) act (h, m) r w) :
    ∃ t, J t w.2 ∧ Q r t := by
  obtain ⟨t, ht, hQ⟩ := follows_run host h J step ha hJ
  rw [show _ = _ from he] at ht hQ
  exact ⟨t, ht, hQ r rfl⟩

/-- An action that asks the host only leaves the runtime as it was. -/
theorem ends_hostOnly {act : Act α} {Q : Except Error α → Unit → Prop}
    (ha : Follows (.only fun _ => False) act () Q)
    {r : Except Error α} {w : τ × Memory} (he : Ends (beside host) act (h, m) r w) : w.2 = m ∧ Q r () := by
  obtain ⟨_, hw, hQ⟩ := follows_ends (fun _ n => n = m) (fun _ _ _ hc => False.elim hc) ha rfl he
  exact ⟨hw, hQ⟩

end Runs

section Resolution
variable {τ : Type} {host : (q : Host.Query) → τ → q.Answer × τ} {h h' : τ} {m m' : Memory} {o : Options}

/-- The graph of a start: the one given, or else the one recorded on the image, which may have none. -/
def GraphFor (m : Memory) (given : Option Graph) (image : String) (g : Graph) : Prop :=
  match given with
  | some g' => g = g'
  | none => ∃ i, m.inspectImage image = .ok i ∧ ∃ recorded, Label.graph i.labels = .ok recorded ∧
      g = recorded.getD {}

/-- A start is resolved as its options and the runtime have it; nothing about it is refused. -/
structure Resolves (m : Memory) (o : Options) (a : Resolved) : Prop where
  options : o.validate = .ok ()
  image : o.image = some a.image
  named : a.image ≠ ""
  source : ∃ given, o.source = .docker given a.mountOptions ∧ GraphFor m given a.image a.graph
  graph : a.graph.validate = .ok ()
  devices : o.gpu.devices = .ok a.devices
  offered : a.devices ≠ [] → offersGpu m.info

private theorem ends_sourceOf {x : Option Graph × List String} {w w' : τ × Memory} :
    Ends (beside host) (sourceOf o) w (.ok x) w' ↔ o.source = .docker x.1 x.2 ∧ w' = w := by
  unfold sourceOf
  split
  · next g mounts ho =>
    rw [ends_pure, ho]
    simp [Prod.ext_iff, eq_comm]
  · next ho => simp [ho]

theorem ends_imageOf {image : String} {w w' : τ × Memory} :
    Ends (beside host) (imageOf o) w (.ok image) w' ↔ (o.image = some image ∧ image ≠ "") ∧ w' = w := by
  have hx : o.image.filter (· ≠ "") = some image ↔ o.image = some image ∧ image ≠ "" := by
    simp [Option.filter_eq_some_iff]
  rw [← hx]
  unfold imageOf
  cases o.image.filter (· ≠ "") <;> simp [eq_comm]

private theorem ends_graphOf {given : Option Graph} {image : String} {g : Graph} {w : τ × Memory} :
    Ends (beside host) (graphOf given image) (h, m) (.ok g) w ↔ GraphFor m given image g ∧ w = (h, m) := by
  cases given with
  | some g' => simp [graphOf, GraphFor]
  | none =>
    unfold graphOf recordedGraph GraphFor
    dsimp only
    rw [ends_attempt]
    dsimp only [Memory.answer]
    cases m.inspectImage image with
    | ok i =>
      dsimp only
      simp only [ends_bind_ok, ends_ofExcept_ok, ends_pure]
      constructor
      · rintro ⟨recorded, _, ⟨hr, rfl⟩, hg, rfl⟩
        exact ⟨⟨i, rfl, recorded, hr, Except.ok.inj hg⟩, rfl⟩
      · rintro ⟨⟨_, ⟨⟩, recorded, hr, rfl⟩, rfl⟩
        exact ⟨recorded, _, ⟨hr, rfl⟩, rfl, rfl⟩
    | error e => cases e <;> simp

private theorem ends_hasGpu {b : Bool} {w : τ × Memory} :
    Ends (beside host) hasGpu (h, m) (.ok b) w ↔ b = offersGpu m.info ∧ w = (h, m) := by
  unfold hasGpu
  rw [ends_bind_ok]
  constructor
  · rintro ⟨i, t, hi, hb⟩
    obtain ⟨⟨⟩, rfl⟩ := ends_call.1 hi
    obtain ⟨⟨⟩, rfl⟩ := ends_pure.1 hb
    exact ⟨rfl, rfl⟩
  · rintro ⟨rfl, rfl⟩
    exact ⟨m.info, _, ends_call.2 ⟨rfl, rfl⟩, ends_pure.2 ⟨rfl, rfl⟩⟩

private theorem ends_devicesOf {devices : List Gpu.Device} {w : τ × Memory} :
    Ends (beside host) (devicesOf o) (h, m) (.ok devices) w ↔
      (o.gpu.devices = .ok devices ∧ (devices ≠ [] → offersGpu m.info)) ∧ w = (h, m) := by
  unfold devicesOf
  rw [ends_bind_ok]
  constructor
  · rintro ⟨ds, t, ht, hr⟩
    obtain ⟨hd, rfl⟩ := ends_ofExcept_ok.1 ht
    split at hr
    · next hn =>
      obtain ⟨⟨⟩, rfl⟩ := ends_pure.1 hr
      exact ⟨⟨hd, fun h => absurd (List.isEmpty_iff.1 hn) h⟩, rfl⟩
    · obtain ⟨b, t, hb, hr⟩ := ends_bind_ok.1 hr
      obtain ⟨rfl, rfl⟩ := ends_hasGpu.1 hb
      split at hr
      · next ho =>
        obtain ⟨⟨⟩, rfl⟩ := ends_pure.1 hr
        exact ⟨⟨hd, fun _ => ho⟩, rfl⟩
      · simp at hr
  · rintro ⟨⟨hd, ho⟩, rfl⟩
    refine ⟨devices, _, ends_ofExcept_ok.2 ⟨hd, rfl⟩, ?_⟩
    split
    · exact ends_pure.2 ⟨rfl, rfl⟩
    · next hn =>
      refine ends_bind_ok.2 ⟨true, _, ends_hasGpu.2 ⟨(ho fun h => hn (List.isEmpty_iff.2 h)).symm, rfl⟩, ?_⟩
      exact ends_pure.2 ⟨rfl, rfl⟩

/-- A start is resolved exactly if nothing about it is refused. -/
theorem ends_resolve {a : Resolved} {w : τ × Memory} :
    Ends (beside host) (resolve o) (h, m) (.ok a) w ↔ Resolves m o a ∧ w = (h, m) := by
  unfold resolve
  simp only [ends_bind_ok, ends_ofExcept_ok, ends_pure]
  constructor
  · rintro ⟨_, _, ⟨ho, rfl⟩, ⟨given, mountOptions⟩, _, es, image, _, ei, g, _, eg, _, _, ⟨hv, rfl⟩,
      devices, _, ed, ha, hw⟩
    obtain ⟨hs, rfl⟩ := ends_sourceOf.1 es
    obtain ⟨⟨hi, hn⟩, rfl⟩ := ends_imageOf.1 ei
    obtain ⟨hg, rfl⟩ := ends_graphOf.1 eg
    obtain ⟨⟨hd, hf⟩, rfl⟩ := ends_devicesOf.1 ed
    cases ha
    exact ⟨⟨ho, hi, hn, ⟨given, hs, hg⟩, hv, hd, hf⟩, hw⟩
  · rintro ⟨⟨ho, hi, hn, ⟨given, hs, hg⟩, hv, hd, hf⟩, rfl⟩
    exact ⟨(), _, ⟨ho, rfl⟩, (given, a.mountOptions), _, ends_sourceOf.2 ⟨hs, rfl⟩, a.image, _,
      ends_imageOf.2 ⟨⟨hi, hn⟩, rfl⟩, a.graph, _, ends_graphOf.2 ⟨hg, rfl⟩, (), _, ⟨hv, rfl⟩, a.devices, _,
      ends_devicesOf.2 ⟨⟨hd, hf⟩, rfl⟩, rfl, rfl⟩

theorem Resolves.unique {a b : Resolved} (ha : Resolves m o a) (hb : Resolves m o b) : a = b := by
  have ea : Ends (beside stillHost) (resolve o) ((), m) (.ok a) ((), m) := ends_resolve.2 ⟨ha, rfl⟩
  exact Except.ok.inj (ea.unique (ends_resolve.2 ⟨hb, rfl⟩)).1

end Resolution

section Cleaning
variable {τ : Type} {host : (q : Host.Query) → τ → q.Answer × τ} {h : τ} {m : Memory} {name : String}
  {forced : Bool}

/-- What the cleaning of a name comes to: nothing is there, a live container stays unless it is forced away,
one that is already being removed stays as well, and any other is taken away. -/
inductive Cleaned (m : Memory) (name : String) (forced : Bool) : Except Error Unit → Memory → Prop where
  | absent (found : m.find? name = none) : Cleaned m name forced (.ok ()) m
  | live {k : Entry} (found : m.find? name = some k) (live : k.advance.container.status.isLive)
      (spared : forced = false) :
      Cleaned m name forced (.error (.stillRunning name)) (m.put k.advance)
  | stuck {k : Entry} {bad : Status.BadChange} (found : m.find? name = some k)
      (stuck : k.advance.container.status.canBecome .removing = false) :
      Cleaned m name forced (.error (.runtime (.change bad))) (m.put k.advance)
  | removed {k : Entry} (found : m.find? name = some k) (free : k.advance.container.status.isLive → forced) :
      Cleaned m name forced (.ok ()) { m with containers := m.containers.erase k.container.name }

theorem ends_clean (hm : Sound m) {r : Except Error Unit} {w : τ × Memory}
    (he : Ends (beside host) (clean name forced) (h, m) r w) :
    ∃ m', w = (h, m') ∧ Cleaned m name forced r m' := by
  unfold clean at he
  rw [ends_attempt] at he
  dsimp only [Memory.answer] at he
  cases hf : m.find? name with
  | none =>
    rw [Memory.inspect_of_find?_eq_none hf] at he
    obtain ⟨rfl, rfl⟩ := ends_pure.1 he
    exact ⟨m, rfl, .absent hf⟩
  | some k =>
    have hp := hm.find?_put hf k.continues_advance
    rw [Memory.inspect_of_find? hf] at he
    dsimp only at he
    split at he
    · next hl =>
      obtain ⟨rfl, rfl⟩ := ends_throw.1 he
      simp only [Bool.and_eq_true, Bool.not_eq_true'] at hl
      exact ⟨_, rfl, .live hf hl.2 hl.1⟩
    · next hl =>
      obtain ⟨rfl, rfl⟩ := ends_call.1 he
      refine ⟨_, rfl, ?_⟩
      have free : k.advance.container.status.isLive → forced := by
        intro hk
        simpa [hk] using hl
      dsimp only [Memory.answer]
      rw [Memory.remove_of_find? hp free]
      split
      · have herase : (m.put k.advance).containers.erase k.advance.container.name =
          m.containers.erase k.container.name := by
          rw [Memory.put, k.continues_advance.name, SortedMap.erase_insert]
        rw [herase]
        exact .removed hf free
      · next hc => exact .stuck hf (by simpa using hc)

end Cleaning

section BringUp
variable {τ : Type} {host : (q : Host.Query) → τ → q.Answer × τ} {h h' : τ} {m m' : Memory}

/-- The calls that bring a container up; the state tells whether the last of them showed it running. -/
def upkeep (name : String) : Protocol Runtime.interface Bool where
  allows _ c := c = .start name ∨ c = .inspect name
  next _
    | .inspect _ => fun
      | .ok c => c.isRunning
      | .error _ => false
    | _ => fun _ => false

/-- Where bringing up a name stands with the container that it leads to. All versions of that one on the way are akin
to the first one. -/
private structure Tended (m : Memory) (name : String) (k : Entry) (running : Bool) (n : Memory) : Prop where
  sound : Sound n
  kin : Kin m n
  there : ∃ k', n.find? name = some k' ∧ k.Akin k' ∧ (k.container.name = name → n = m.put k') ∧
    (running → k'.container.status = .running)

section Tended
variable {n : Memory} {name : String} {k : Entry} {running : Bool}

/-- Another version of the container takes the place of the last one. -/
private theorem put_eq_put {x x' : Entry} (hput : n = m.put x) (hc : x.Continues x') : n.put x' = m.put x' := by
  rw [hput, Memory.put_put hc.name]

private theorem Tended.started (hJ : Tended m name k running n) : Tended m name k false (n.start name).2 := by
  obtain ⟨hn, hkin, x, hx, hkx, hput, _⟩ := hJ
  have hstep : Kin n (n.start name).2 := hn.kin_of_call (c := .start name) (.inl rfl)
  obtain ⟨x', hx', hxx⟩ := hstep.find? hx
  refine ⟨hn.call (.start name), hkin.trans hstep, x', hx', hkx.trans hxx, fun ho => ?_, nofun⟩
  -- the start does not go on to another container
  obtain ⟨y, ha⟩ := hn.exists_aims hx
  obtain rfl := ha.eq_of_name (hkx.name.trans ho)
  obtain ⟨y', hc, hs⟩ := ha.exists_continues hn
  rw [hs] at hx' ⊢
  obtain rfl : y' = x' := Option.some.inj ((hn.find?_put hx hc).symm.trans hx')
  exact put_eq_put (hput ho) hc

private theorem Tended.inspected (hJ : Tended m name k running n) :
    Tended m name k ((upkeep name).next running (.inspect name) (n.inspect name).1) (n.inspect name).2 := by
  obtain ⟨hn, hkin, x, hx, hkx, hput, _⟩ := hJ
  have hstep : Kin n (n.inspect name).2 := hn.kin_of_call (c := .inspect name) (.inr rfl)
  have hc := x.continues_advance
  rw [Memory.inspect_of_find? hx] at hstep ⊢
  exact ⟨hn.put hx hc, hkin.trans hstep, _, hn.find?_put hx hc, hkx.trans hc.toAkin, fun ho => put_eq_put (hput ho) hc,
    of_decide_eq_true⟩

private theorem tended_step (running : Bool) (c : Call) (n : Memory) (hc : (upkeep name).allows running c)
    (hJ : Tended m name k running n) :
    Tended m name k ((upkeep name).next running c (Memory.answer c n).1) (Memory.answer c n).2 := by
  rcases hc with rfl | rfl
  · exact hJ.started
  · exact hJ.inspected

end Tended

/-- While a name is brought up all containers stay, and the one that it leads to runs when that succeeds. No other one
changes if that is the one of this name. -/
theorem ends_bringUp {p : Engine.Patience} {o : Options} {k : Entry} (hm : Sound m)
    (hf : m.find? o.name = some k) {r : Except Error Unit}
    (he : Ends (beside host) (bringUp p o) (h, m) r (h', m')) :
    Kin m m' ∧ ∃ k', m'.find? o.name = some k' ∧ k.Akin k' ∧ (k.container.name = o.name → m' = m.put k') ∧
      match r with
      | .ok () => k'.container.status = .running
      | .error e => e.kind ≠ .invalid := by
  have watches : Watches (upkeep o.name) o.name (fun _ => True) (· = true) :=
    ⟨fun _ => .inr rfl, fun _ => trivial, fun _ h => h⟩
  have hup := follows_bringUp (P := upkeep o.name) (s := false) (p := p) watches (.inl rfl) fun _ => trivial
  have hsame : k.container.name = o.name → m = m.put k := fun _ => (Memory.put_of_get? (hm.get?_of_find? hf)).symm
  have hbegin : Tended m o.name k false m := ⟨hm, .refl m, k, hf, .refl k, hsame, nofun⟩
  obtain ⟨t, hJ, _, hQ⟩ := follows_ends (Tended m o.name k) tended_step hup hbegin he
  obtain ⟨k', hk', ha, hput, hr⟩ := hJ.there
  refine ⟨hJ.kin, k', hk', ha, hput, ?_⟩
  cases r with
  | ok _ => exact hr hQ
  | error e => exact hQ.kind_ne_invalid

end BringUp

section Course
variable {τ : Type} {host : (q : Host.Query) → τ → q.Answer × τ} {h : τ} {m m₁ : Memory} {o : Options}

/-- A container that a name leads to by identifier though it has another one, and that was there before. -/
structure Stray (m : Memory) (name : String) (x : Entry) : Prop where
  before : ∃ y, m.containers.get? x.container.name = some y ∧ y.Akin x
  other : x.container.name ≠ name
  id : x.container.id.text = name

theorem Stray.exists_id {name : String} {x : Entry} (h : Stray m name x) :
    ∃ n y, m.containers.get? n = some y ∧ y.container.id.text = name := by
  obtain ⟨y, hy, ha⟩ := h.before
  exact ⟨_, y, hy, ha.id ▸ h.id⟩

theorem Cleaned.sound (hm : Sound m) {name : String} {forced : Bool} {r : Except Error Unit}
    (hc : Cleaned m name forced r m₁) : Sound m₁ := by
  cases hc with
  | absent _ => exact hm
  | live hf _ _ => exact hm.put hf (Entry.continues_advance _)
  | stuck hf _ => exact hm.put hf (Entry.continues_advance _)
  | removed hf _ => exact hm.erase _

/-- What is there after a cleaning was there before. -/
theorem Cleaned.get?_of_get? {name n : String} {forced : Bool} {k : Entry} (hc : Cleaned m name forced (.ok ()) m₁)
    (hk : m₁.containers.get? n = some k) : m.containers.get? n = some k := by
  cases hc with
  | absent _ => exact hk
  | removed _ _ => exact SortedMap.get?_of_get?_erase hk

theorem Cleaned.stray {name name' : String} {forced : Bool} {x : Entry} (hc : Cleaned m name forced (.ok ()) m₁)
    (h : Stray m₁ name' x) : Stray m name' x := by
  obtain ⟨y, hy, ha⟩ := h.before
  exact ⟨⟨y, hc.get?_of_get? hy, ha⟩, h.other, h.id⟩

theorem Cleaned.images_eq {name : String} {forced : Bool} {r : Except Error Unit} (hc : Cleaned m name forced r m₁) :
    m₁.images = m.images := by
  cases hc <;> rfl

/-- Cleaning a name that identifies no other container takes away what is filed under it. -/
theorem Cleaned.eq_erase (hm : Sound m) {name : String} {forced : Bool} (hu : Undisputed m name)
    (hc : Cleaned m name forced (.ok ()) m₁) : m₁ = { m with containers := m.containers.erase name } := by
  cases hc with
  | absent hf => rw [SortedMap.erase_of_get? (Memory.get?_of_find?_eq_none hf)]
  | removed hf _ => rw [hm.filed (hu.get?_of_find? hf)]

/-- A name that identifies no other container is free for a new one when it was cleaned. -/
theorem Cleaned.get?_eq_none (hm : Sound m) {name : String} {forced : Bool} (hu : Undisputed m name)
    (hc : Cleaned m name forced (.ok ()) m₁) : m₁.containers.get? name = none := by
  rw [hc.eq_erase hm hu]
  exact SortedMap.get?_erase_self ..

/-- What a start reports of the container that its name leads to: that it runs, or a failure that is not that of the
request. -/
def Reports (k : Entry) (started : Container → Started) : Except Error Started → Prop
  | .ok s => k.container.status = .running ∧ s = started k.container
  | .error e => e.kind ≠ .invalid

/-- The runtime with a new container. -/
abbrev added (m : Memory) (spec : Container.Spec) : Memory :=
  { m.put (m.newEntry spec) with nextId := m.nextId + 1 }

/-- What comes of the creation of a container under a name that was cleaned, whatever is reported of it. The name may
still be taken, if the cleaning has removed a container that it identified. Otherwise there is the new container, and
either the name leads to it, or to a stray one. -/
inductive Upshot (name : String) (m : Memory) (spec : Container.Spec) (started : Container → Started) :
    Except Error Started → Memory → Prop where
  | taken {e : Entry} {text : String} (there : m.containers.get? name = some e) :
      Upshot name m spec started (.error (.runtime (.conflict text))) m
  | created {k : Entry} {r : Except Error Started} (akin : (m.newEntry spec).Akin k)
      (found : Memory.find? { m.put k with nextId := m.nextId + 1 } name = some k) (reports : Reports k started r) :
      Upshot name m spec started r { m.put k with nextId := m.nextId + 1 }
  | astray {x : Entry} {r : Except Error Started} {m' : Memory} (kin : Kin (added m spec) m')
      (found : m'.find? name = some x) (stray : Stray m name x) (reports : Reports x started r) :
      Upshot name m spec started r m'

section Upshot
variable {name : String} {spec : Container.Spec} {started : Container → Started} {r : Except Error Started}
  {m' : Memory}

/-- A name that is no container's identifier leads to the new container. -/
theorem Upshot.exists_created (hu : Upshot name m spec started r m') (hn : m.containers.get? name = none)
    (hid : ∀ n x, m.containers.get? n = some x → x.container.id.text ≠ name) :
    ∃ k, (m.newEntry spec).Akin k ∧ m' = { m.put k with nextId := m.nextId + 1 } ∧ m'.find? name = some k ∧
      Reports k started r := by
  cases hu with
  | taken there => exact nomatch hn.symm.trans there
  | created akin found reports => exact ⟨_, akin, rfl, found, reports⟩
  | astray _ _ stray _ =>
    obtain ⟨n, y, hy, hy'⟩ := stray.exists_id
    exact absurd hy' (hid n y hy)

theorem Upshot.kind_ne_invalid {e : Error} (hu : Upshot name m spec started (.error e) m') : e.kind ≠ .invalid := by
  cases hu with
  | taken _ => nofun
  | created _ _ reports => exact reports
  | astray _ _ _ reports => exact reports

/-- A start that succeeds has left the new container, and reports the one that its name leads to. -/
theorem Upshot.exists_filed {s : Started} (hu : Upshot name m spec started (.ok s) m') (hn : spec.name = name) :
    ∃ k x, (m.newEntry spec).Akin k ∧ m'.containers.get? name = some k ∧ m'.find? name = some x ∧
      (x = k ∨ Stray m name x) ∧ x.container.status = .running ∧ s = started x.container := by
  cases hu with
  | @created k _ akin found reports =>
    have hname : k.container.name = name := akin.name.trans hn
    have hfiled : (m.put k).containers.get? name = some k := hname ▸ SortedMap.get?_insert_self ..
    exact ⟨k, k, akin, hfiled, found, .inl rfl, reports⟩
  | @astray x _ m' kin found stray reports =>
    have hnew : (added m spec).containers.get? name = some (m.newEntry spec) := hn ▸ SortedMap.get?_insert_self ..
    obtain ⟨k, hk, akin⟩ := kin.later hnew
    exact ⟨k, x, akin, hk, found, .inr stray, reports⟩

/-- Every container there is in the end was there before or is the new one. -/
theorem Upshot.origin (hu : Upshot name m spec started r m') (hn : spec.name = name) {n : String} {k : Entry}
    (hk : m'.containers.get? n = some k) :
    (∃ y, m.containers.get? n = some y ∧ y.Akin k) ∨ n = name ∧ (m.newEntry spec).Akin k := by
  cases hu with
  | taken _ => exact .inl ⟨k, hk, .refl k⟩
  | @created k₀ _ akin _ _ =>
    rcases SortedMap.get?_insert_cases hk with ⟨rfl, rfl⟩ | hold
    · exact .inr ⟨akin.name.trans hn, akin⟩
    · exact .inl ⟨k, hold, .refl k⟩
  | astray kin _ _ _ =>
    obtain ⟨y, hy, akin⟩ := kin.before hk
    rcases SortedMap.get?_insert_cases hy with ⟨rfl, rfl⟩ | hold
    · exact .inr ⟨hn, akin⟩
    · exact .inl ⟨y, hold, akin⟩

end Upshot

/-- How a start can go: it is refused, gets no port, spares what is there, fails in its layout after cleaning,
or comes to creating a container. -/
inductive Course (host : (q : Host.Query) → τ → q.Answer × τ) (o : Options) (h : τ) (m : Memory) :
    Except Error Started → Memory → Prop where
  | refused {e : Error} (never : ∀ a, ¬ Resolves m o a) (kind : e.kind ≠ .timeout) :
      Course host o h m (.error e) m
  | portless {a : Resolved} {reason : String} (resolved : Resolves m o a) :
      Course host o h m (.error (.io reason)) m
  | spared {a : Resolved} {e : Error} {m' : Memory} (resolved : Resolves m o a)
      (cleaned : Cleaned m o.name o.forced (.error e) m') : Course host o h m (.error e) m'
  | unplanned {a : Resolved} {e : Error} {m' : Memory} (resolved : Resolves m o a)
      (cleaned : Cleaned m o.name o.forced (.ok ()) m') (fault : LayoutFault o a e) :
      Course host o h m (.error e) m'
  | planned {a : Resolved} {ssh : UInt16} {mounts : List Container.Mount} {plan : Plan} {h₁ h₂ : τ} {m₁ m' : Memory}
      {r : Except Error Started} (resolved : Resolves m o a)
      (port : Ends (beside host) (Plan.pick freePort o.sshPort) (h, m) (.ok ssh) (h₁, m))
      (cleaned : Cleaned m o.name o.forced (.ok ()) m₁)
      (mounted : Container.mounts a.mountOptions a.graph o.buildContext = .ok mounts)
      (made : Ends (beside host) (Plan.make freePort a.graph o.sshHost ssh) (h₁, m₁) (.ok plan) (h₂, m₁))
      (binds : plan.BindsSsh o.sshHost ssh)
      (upshot : Upshot o.name m₁ (specOf o a.image a.graph a.devices ssh mounts plan)
        (fun c => { sshPort := ssh, address := c.address, name := o.name, ports := plan.services }) r m') :
      Course host o h m r m'

private theorem ends_layOut {a : Resolved} {ssh : UInt16} {x : List Container.Mount × Plan}
    {w w' : τ × Memory}
    (he : Ends (beside host) (layOut o a ssh) w (.ok x) w') :
    Container.mounts a.mountOptions a.graph o.buildContext = .ok x.1 ∧
      Ends (beside host) (Plan.make freePort a.graph o.sshHost ssh) w (.ok x.2) w' := by
  unfold layOut at he
  obtain ⟨mounts, _, em, e₁⟩ := ends_bind_ok.1 he
  obtain ⟨hm, rfl⟩ := ends_ofExcept_ok.1 em
  obtain ⟨plan, _, hp, ex⟩ := ends_bind_ok.1 e₁
  obtain ⟨⟨⟩, rfl⟩ := ends_pure.1 ex
  exact ⟨hm, hp⟩

theorem ends_pick {r : Except Error UInt16} {w : τ × Memory}
    (he : Ends (beside host) (Plan.pick freePort o.sshPort) (h, m) r w) :
    w.2 = m ∧ ∀ e, r = .error e → ∃ reason, e = .io reason :=
  ends_hostOnly (Q := fun r _ => ∀ e, r = .error e → ∃ reason, e = .io reason)
    (follows_pick (fun _ _ => nofun) fun reason _ he => ⟨reason, (Except.error.inj he).symm⟩) he

private theorem ends_refused {e : Error} {w : τ × Memory}
    (he : Ends (beside host) (resolve o) (h, m) (.error e) w) :
    Course host o h m (.error e) w.2 := by
  let reads : Protocol Runtime.interface Unit := .only Reads
  have step (u : Unit) (c : Call) (n : Memory) (hc : reads.allows u c) (hn : n = m) :
      (Memory.answer c n).2 = m := by
    rcases hc with rfl | ⟨_, rfl⟩ <;> exact hn
  obtain ⟨_, hw, _, hk⟩ := follows_ends (fun _ n => n = m) step (stays_resolve Protocol.permits_only) rfl he
  rw [hw]
  exact .refused (fun a ha => nomatch (he.unique (ends_resolve.2 ⟨ha, rfl⟩)).1) (hk e rfl)

/-- The container that a name leads to is brought up, and one more inspection shows it. -/
private theorem ends_brought (hm : Sound m) {k : Entry} (hf : m.find? o.name = some k) {p : Engine.Patience}
    {started : Container → Started} {r : Except Error Started} {w : τ × Memory}
    (he : Ends (beside host) (do bringUp p o; return started (← call (.inspect o.name))) (h, m) r w) :
    Kin m w.2 ∧ ∃ k', w.2.find? o.name = some k' ∧ k.Akin k' ∧ (k.container.name = o.name → w.2 = m.put k') ∧
      Reports k' started r := by
  rcases ends_bind.1 he with ⟨_, ⟨h', m'⟩, eb, e₁⟩ | ⟨e, eb, rfl⟩ <;>
    obtain ⟨hkin, k', hk', ha, hput, hr⟩ := ends_bringUp hm hf eb
  case inr => exact ⟨hkin, k', hk', ha, hput, hr⟩
  have hrunning : k'.container.status = .running := hr
  -- an inspection of a container that runs changes nothing
  have hlook : Memory.answer (.inspect o.name) m' = (.ok k'.container, m') := by
    have hstill : k'.advance = k' := Entry.advance_of_ne_created (by simp [hrunning])
    obtain ⟨key, hkey, hmatch⟩ := Memory.exists_of_find? hk'
    obtain ⟨x, hx, hxk⟩ := hkin.before hkey
    have hname : k'.container.name = key := hxk.name.trans (hm.filed hx)
    refine (Memory.inspect_of_find? hk').trans ?_
    rw [hstill, Memory.put_of_get? (hname ▸ hkey)]
  rcases ends_bind.1 e₁ with ⟨_, _, ei, e₂⟩ | ⟨e, ei, rfl⟩ <;> obtain ⟨hc, rfl⟩ := ends_call.1 ei <;>
    rw [hlook] at * <;> cases hc
  obtain ⟨rfl, rfl⟩ := ends_pure.1 e₂
  exact ⟨hkin, k', hk', ha, hput, hrunning, rfl⟩

/-- Where the name is free a container is created, which stays whatever comes of it. -/
private theorem ends_created (hm : Sound m) {spec : Container.Spec} (ho : spec.name = o.name)
    {p : Engine.Patience} {started : Container → Started} {r : Except Error Started} {w : τ × Memory}
    (he : Ends (beside host)
      (do let _ ← call (.create spec); bringUp p o; return started (← call (.inspect o.name))) (h, m) r w) :
    Upshot o.name m spec started r w.2 := by
  cases hn : m.containers.get? o.name with
  | some e =>
    obtain ⟨text, hcreate⟩ := Memory.create_of_get? (ho.symm ▸ hn : m.containers.get? spec.name = some e)
    have hcreate : Memory.answer (.create spec) m = (.error (.conflict text), m) := hcreate
    rcases ends_bind.1 he with ⟨_, _, ec, _⟩ | ⟨e, ec, rfl⟩ <;> obtain ⟨hc, hw⟩ := ends_call.1 ec <;>
      rw [hcreate] at hc hw <;> cases hc
    rw [hw]
    exact .taken hn
  | none =>
    have hcreate : Memory.answer (.create spec) m = (.ok ⟨Memory.hexId m.nextId⟩, added m spec) :=
      Memory.create_of_get?_eq_none (ho ▸ hn)
    rcases ends_bind.1 he with ⟨_, ⟨h', _⟩, ec, e₁⟩ | ⟨e, ec, rfl⟩ <;> obtain ⟨hc, hw⟩ := ends_call.1 ec <;>
      rw [hcreate] at hc hw <;> cases hc
    cases hw
    have hm₁ : Sound (added m spec) := hm.create spec
    have hnew : (added m spec).containers.get? o.name = some (m.newEntry spec) :=
      ho ▸ SortedMap.get?_insert_self ..
    cases hf : (added m spec).find? o.name with
    | none => exact absurd rfl (Memory.find?_eq_none_iff.1 hf _ _ hnew).1
    | some y =>
      obtain ⟨hkin, k, hk, ha, hput, hr⟩ := ends_brought hm₁ hf e₁
      have hget := hm₁.get?_of_find? hf
      by_cases hy : y.container.name = o.name
      · obtain rfl : y = m.newEntry spec := Option.some.inj (hget.symm.trans (hy ▸ hnew))
        have hw : w.2 = { m.put k with nextId := m.nextId + 1 } := by
          have hname : k.container.name = spec.name := ha.name
          rw [hput hy]
          simp [Memory.put, Memory.newEntry, hname]
        rw [hw] at hk ⊢
        exact .created ha hk hr
      · have hold : m.containers.get? y.container.name = some y := by
          have hne : y.container.name ≠ (m.newEntry spec).container.name := fun h => hy (h.trans ho)
          rwa [added, Memory.put, SortedMap.get?_insert_ne hne] at hget
        have hid : k.container.id.text = o.name := ha.id ▸ (hm₁.name_or_id_of_find? hf).resolve_left hy
        exact .astray hkin hk ⟨⟨y, ha.name ▸ hold, ha⟩, ha.name ▸ hy, hid⟩ hr

/-- A start in a runtime that nobody else calls takes one of its courses. -/
theorem ends_start (hm : Sound m) {p : Engine.Patience} {r : Except Error Started} {w : τ × Memory}
    (he : Ends (beside host) (start p o) (h, m) r w) : Course host o h m r w.2 := by
  rw [start_eq] at he
  rcases ends_bind.1 he with ⟨a, _, ea, e₁⟩ | ⟨e, ea, rfl⟩
  case inr => exact ends_refused ea
  obtain ⟨ha, rfl⟩ := ends_resolve.1 ea
  rcases ends_bind.1 e₁ with ⟨ssh, ⟨h₁, m'⟩, ep, e₂⟩ | ⟨e, ep, rfl⟩
  case inr =>
    obtain ⟨hw, hr⟩ := ends_pick ep
    obtain ⟨_, rfl⟩ := hr e rfl
    rw [hw]
    exact .portless ha
  obtain ⟨(rfl : m' = m), -⟩ := ends_pick ep
  rcases ends_bind.1 e₂ with ⟨_, _, ec, e₃⟩ | ⟨e, ec, rfl⟩ <;> obtain ⟨m₁, rfl, hc⟩ := ends_clean hm ec
  case inr => exact .spared ha hc
  rcases ends_bind.1 e₃ with ⟨⟨mounts, plan⟩, ⟨h₂, m'⟩, el, e₄⟩ | ⟨e, el, rfl⟩
  case inr =>
    obtain ⟨hw, hl⟩ := ends_hostOnly follows_layOut el
    rw [hw]
    exact .unplanned ha hc hl.2
  obtain ⟨(rfl : m' = m₁), _, hb⟩ := ends_hostOnly follows_layOut el
  obtain ⟨hmounts, hplan⟩ := ends_layOut el
  exact .planned ha ep hc hmounts hplan hb (ends_created (hc.sound hm) rfl e₄)

end Course

end DevEnv.Local
