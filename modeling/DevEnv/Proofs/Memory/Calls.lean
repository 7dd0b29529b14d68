import DevEnv.Proofs.SortedMap
import DevEnv.Runtime.Memory

/-! What each call on a runtime in memory does, told by the container its name leads to. -/
namespace DevEnv.Runtime.Memory

/-- The entry with its container in another state. -/
abbrev Entry.turned (e : Entry) (status : Status) : Entry :=
  { e with container := { e.container with status } }

/-- The entry with the address that started containers get. -/
abbrev Entry.addressed (e : Entry) : Entry := { e with container := { e.container with address } }

/-- The same container: only its state, its address and its countdown may differ. -/
structure Entry.Akin (e e' : Entry) : Prop where
  spec : e'.spec = e.spec
  id : e'.container.id = e.container.id
  name : e'.container.name = e.container.name
  image : e'.container.image = e.container.image
  labels : e'.container.labels = e.container.labels
  bindings : e'.container.bindings = e.container.bindings

theorem Entry.Akin.refl (e : Entry) : e.Akin e := ⟨rfl, rfl, rfl, rfl, rfl, rfl⟩

theorem Entry.Akin.trans {e e' e'' : Entry} (h : e.Akin e') (h' : e'.Akin e'') : e.Akin e'' :=
  ⟨h'.spec.trans h.spec, h'.id.trans h.id, h'.name.trans h.name, h'.image.trans h.image,
    h'.labels.trans h.labels, h'.bindings.trans h.bindings⟩

/-- The same container one step later: its state has changed only as states may follow each other. -/
structure Entry.Continues (e e' : Entry) : Prop extends e.Akin e' where
  status : e'.container.status = e.container.status ∨ e.container.status.canBecome e'.container.status

theorem Entry.continues_turned {e : Entry} {status : Status} (h : e.container.status.canBecome status) :
    e.Continues (e.turned status) := ⟨⟨rfl, rfl, rfl, rfl, rfl, rfl⟩, .inr h⟩

/-- An inspection changes nothing, counts down, or lets a created container run. -/
theorem Entry.advance_cases (e : Entry) :
    e.advance = e ∨ (∃ n, e.container.status = .created ∧ e.advance = { e with pending := some n }) ∨
      e.container.status = .created ∧ e.advance = e.turned .running := by
  unfold advance
  split
  · next h =>
    split
    · exact .inr (.inr ⟨h, rfl⟩)
    · next n _ => exact .inr (.inl ⟨n, h, rfl⟩)
    · exact .inl rfl
  · exact .inl rfl

theorem Entry.continues_advance (e : Entry) : e.Continues e.advance := by
  rcases e.advance_cases with h | ⟨n, _, h⟩ | ⟨hs, h⟩ <;> rw [h]
  · exact ⟨⟨rfl, rfl, rfl, rfl, rfl, rfl⟩, .inl rfl⟩
  · exact ⟨⟨rfl, rfl, rfl, rfl, rfl, rfl⟩, .inl rfl⟩
  · exact continues_turned (by rw [hs]; rfl)

/-- An inspection ends no live container and touches none that has ended. -/
theorem Entry.advance_of_ne_created {e : Entry} (h : e.container.status ≠ .created) : e.advance = e := by
  simp [advance, h]

section Look
variable {m : Memory} {name : String} {e : Entry}

theorem put_of_get? (h : m.containers.get? e.container.name = some e) : m.put e = m := by
  rw [put, SortedMap.insert_of_get? h]

/-- Of two versions of a container that are filed the later one stays. -/
theorem put_put {e' : Entry} (h : e'.container.name = e.container.name) : (m.put e).put e' = m.put e' := by
  simp only [put, h, SortedMap.insert_insert]

/-- What holds of every container still does when one is filed of which it holds. -/
theorem forall_put {P : Entry → Prop} (h : ∀ n x, m.containers.get? n = some x → P x) (he : P e) (n : String)
    (x : Entry) (hx : (m.put e).containers.get? n = some x) : P x := by
  rcases SortedMap.get?_insert_cases hx with ⟨_, rfl⟩ | hx
  · exact he
  · exact h n x hx

/-- What holds of every container there is holds under whatever name it is filed. -/
theorem forall_get? {P : Entry → Prop} (h : ∀ x ∈ m.containers.values, P x) (n : String) (x : Entry)
    (hx : m.containers.get? n = some x) : P x := h x (SortedMap.mem_values.2 ⟨n, hx⟩)

/-- The names that a lookup comes upon are those of all containers. -/
theorem mem_visit {key : String} :
    key ∈ m.order.visit m.nextId m.containers.keys ↔ ∃ e, m.containers.get? key = some e := by
  rw [(m.order.perm _ _).mem_iff, SortedMap.mem_keys]

/-- A lookup ends at a container with the name, or with the name as its identifier. -/
theorem get?_of_key? {key : String} (h : m.key? name = some key) :
    ∃ e, m.containers.get? key = some e ∧ (key = name ∨ e.container.id.text = name) := by
  obtain ⟨e, he⟩ := mem_visit.1 (List.mem_of_find?_eq_some h)
  have hp := List.find?_some h
  simp only [he, Option.any_some, Bool.or_eq_true, decide_eq_true_eq] at hp
  exact ⟨e, he, hp⟩

theorem key?_eq_none_iff : m.key? name = none ↔
    ∀ key e, m.containers.get? key = some e → key ≠ name ∧ e.container.id.text ≠ name := by
  rw [key?, List.find?_eq_none]
  constructor
  · intro h key e he
    simpa [he] using h key (mem_visit.2 ⟨e, he⟩)
  · intro h key hkey
    obtain ⟨e, he⟩ := mem_visit.1 hkey
    simpa [he] using h key e he

theorem find?_eq_some_iff :
    m.find? name = some e ↔ ∃ key, m.key? name = some key ∧ m.containers.get? key = some e := by
  rw [find?, Option.bind_eq_some_iff]

/-- What a name leads to is filed, and under the name or with it as its identifier. -/
theorem exists_of_find? (h : m.find? name = some e) :
    ∃ key, m.containers.get? key = some e ∧ (key = name ∨ e.container.id.text = name) := by
  obtain ⟨key, hkey, he⟩ := find?_eq_some_iff.1 h
  obtain ⟨x, hx, hmatch⟩ := get?_of_key? hkey
  obtain rfl : x = e := Option.some.inj (hx.symm.trans he)
  exact ⟨key, he, hmatch⟩

theorem find?_eq_none_iff : m.find? name = none ↔
    ∀ key e, m.containers.get? key = some e → key ≠ name ∧ e.container.id.text ≠ name := by
  rw [← key?_eq_none_iff, find?, Option.bind_eq_none_iff]
  constructor
  · intro h
    cases hkey : m.key? name with
    | none => rfl
    | some key =>
      obtain ⟨e, he, -⟩ := get?_of_key? hkey
      exact nomatch (h key hkey).symm.trans he
  · intro h key hkey
    exact nomatch h.symm.trans hkey

theorem get?_of_find?_eq_none (h : m.find? name = none) : m.containers.get? name = none :=
  Option.eq_none_iff_forall_ne_some.2 fun e he => (find?_eq_none_iff.1 h name e he).1 rfl

/-- A name leads to the only container that has it, or has it as its identifier. -/
theorem find?_of_sole {key : String} (he : m.containers.get? key = some e)
    (hmatch : key = name ∨ e.container.id.text = name)
    (sole : ∀ key' x, m.containers.get? key' = some x → key' = name ∨ x.container.id.text = name → key' = key) :
    m.find? name = some e := by
  cases hf : m.find? name with
  | none =>
    obtain ⟨hkey, hid⟩ := find?_eq_none_iff.1 hf key e he
    exact absurd hmatch (not_or.2 ⟨hkey, hid⟩)
  | some x =>
    obtain ⟨key', hx, hxmatch⟩ := exists_of_find? hf
    obtain rfl := sole key' x hx hxmatch
    exact hx.symm.trans he

/-- The same containers, each in some version of itself, and everything else as it was. -/
structure Kin (m m' : Memory) : Prop where
  rest : m' = { m with containers := m'.containers }
  keys : m'.containers.keys = m.containers.keys
  akin : ∀ {n e e'}, m.containers.get? n = some e → m'.containers.get? n = some e' → e.Akin e'

section Kin
variable {m' m'' : Memory}

theorem Kin.refl (m : Memory) : Kin m m where
  rest := rfl
  keys := rfl
  akin he he' := Option.some.inj (he.symm.trans he') ▸ .refl _

theorem Kin.later (h : Kin m m') {n : String} (he : m.containers.get? n = some e) :
    ∃ e', m'.containers.get? n = some e' ∧ e.Akin e' := by
  obtain ⟨e', he'⟩ := SortedMap.mem_keys.1 (h.keys ▸ SortedMap.mem_keys.2 ⟨e, he⟩)
  exact ⟨e', he', h.akin he he'⟩

theorem Kin.before (h : Kin m m') {n : String} {e' : Entry} (he' : m'.containers.get? n = some e') :
    ∃ e, m.containers.get? n = some e ∧ e.Akin e' := by
  obtain ⟨e, he⟩ := SortedMap.mem_keys.1 (h.keys ▸ SortedMap.mem_keys.2 ⟨e', he'⟩)
  exact ⟨e, he, h.akin he he'⟩

theorem Kin.trans (h : Kin m m') (h' : Kin m' m'') : Kin m m'' where
  rest := by rw [h'.rest, h.rest]
  keys := h'.keys.trans h.keys
  akin he he'' := by
    obtain ⟨_, he', ha⟩ := h.later he
    exact ha.trans (h'.akin he' he'')

theorem kin_put {e' : Entry} (he : m.containers.get? e.container.name = some e) (ha : e.Akin e') : Kin m (m.put e') where
  rest := rfl
  keys := by
    rw [put, ha.name]
    exact SortedMap.keys_insert_of_get? he
  akin {n x x'} hx hx' := by
    rw [put, ha.name, SortedMap.get?_insert] at hx'
    split at hx'
    · next hn =>
      obtain rfl : e = x := Option.some.inj (he.symm.trans (hn ▸ hx))
      exact Option.some.inj hx' ▸ ha
    · exact Option.some.inj (hx.symm.trans hx') ▸ .refl x

/-- Lookups end at the same names as long as there are the same names and identifiers. -/
theorem Kin.key?_eq (h : Kin m m') (name : String) : m'.key? name = m.key? name := by
  have hid (key : String) : (m'.containers.get? key).any (·.container.id.text = name) =
      (m.containers.get? key).any (·.container.id.text = name) := by
    cases he : m.containers.get? key with
    | some e =>
      obtain ⟨e', he', ha⟩ := h.later he
      rw [he', Option.any_some, Option.any_some, ha.id]
    | none =>
      cases he' : m'.containers.get? key with
      | none => rfl
      | some e' =>
        obtain ⟨e, hold, -⟩ := h.before he'
        exact nomatch he.symm.trans hold
  have horder : m'.order = m.order := by rw [h.rest]
  have hnext : m'.nextId = m.nextId := by rw [h.rest]
  unfold key?
  rw [horder, hnext, h.keys]
  simp only [hid]

/-- A name still leads to the same container. -/
theorem Kin.find? (h : Kin m m') (hf : m.find? name = some e) : ∃ e', m'.find? name = some e' ∧ e.Akin e' := by
  obtain ⟨key, hkey, he⟩ := find?_eq_some_iff.1 hf
  obtain ⟨e', he', ha⟩ := h.later he
  exact ⟨e', find?_eq_some_iff.2 ⟨key, (h.key?_eq name).trans hkey, he'⟩, ha⟩

end Kin

theorem key?_put {e' : Entry} (he : m.containers.get? e.container.name = some e) (ha : e.Akin e') (name : String) :
    (m.put e').key? name = m.key? name := (kin_put he ha).key?_eq name

section Found
variable {α : Type} {act : Entry → Except Error α × Memory}

theorem withFound_of_find? (h : m.find? name = some e) : m.withFound name act = act e := by
  rw [withFound, h]

theorem withFound_of_find?_eq_none (h : m.find? name = none) :
    m.withFound name act = (.error (.notFound name), m) := by
  rw [withFound, h]

end Found

theorem inspect_of_find? (h : m.find? name = some e) :
    m.inspect name = (.ok e.advance.container, m.put e.advance) := withFound_of_find? h

theorem inspect_of_find?_eq_none (h : m.find? name = none) :
    m.inspect name = (.error (.notFound name), m) := withFound_of_find?_eq_none h

theorem inspectImage_of_get? {reference : String} {i : StoredImage} (h : m.images.get? reference = some i) :
    m.inspectImage reference = .ok i := by
  simp [inspectImage, h]

/-- A reference leads to an image that is filed under it, or has it as its identifier and nothing is filed under it. -/
theorem filed_of_inspectImage {reference : String} {i : StoredImage} (h : m.inspectImage reference = .ok i) :
    m.images.get? reference = some i ∨ m.images.get? reference = none ∧ ∃ r, m.images.get? r = some i := by
  unfold inspectImage at h
  split at h
  · next hk =>
    cases h
    exact .inl hk
  · next hk =>
    split at h
    · next hf =>
      cases h
      exact .inr ⟨hk, SortedMap.mem_values.1 (List.mem_of_find?_eq_some hf)⟩
    · cases h

/-- A reference leads nowhere if nothing is filed under it and no image has it as its identifier. -/
theorem inspectImage_eq_notFound_iff {reference : String} :
    m.inspectImage reference = .error (.notFound reference) ↔
      m.images.get? reference = none ∧ ∀ r i, m.images.get? r = some i → i.id.text ≠ reference := by
  unfold inspectImage
  cases hk : m.images.get? reference with
  | some i => simp
  | none =>
    cases hf : m.images.values.find? (·.id.text = reference) with
    | some i =>
      obtain ⟨r, hr⟩ := SortedMap.mem_values.1 (List.mem_of_find?_eq_some hf)
      have hid : i.id.text = reference := by simpa using List.find?_some hf
      simp only [reduceCtorEq, true_and, false_iff]
      exact fun hall => hall r i hr hid
    | none =>
      have hnone := List.find?_eq_none.1 hf
      simp only [true_and, true_iff]
      intro r i hr
      simpa using hnone i (SortedMap.mem_values.2 ⟨r, hr⟩)

end Look

section Change
variable {m : Memory} {name : String} {e : Entry}

theorem become_eq (m : Memory) (e : Entry) (status : Status) : m.become e status =
    if e.container.status.canBecome status then (.ok (), m.put (e.turned status))
    else (.error (.change ⟨e.container.status, status⟩), m) := by
  unfold become Status.change
  by_cases h : e.container.status.canBecome status <;> simp [h]

theorem pause_of_find? (h : m.find? name = some e) : m.pause name =
    if e.container.status = .running then (.ok (), m.put (e.turned .paused))
    else (.error (if e.container.status = .paused then .alreadyPaused name else .notRunning name), m) := by
  rw [pause, withFound_of_find? h]
  cases hs : e.container.status <;> simp [become_eq, hs]
  rfl

theorem unpause_of_find? (h : m.find? name = some e) : m.unpause name =
    if e.container.status = .paused then (.ok (), m.put (e.turned .running)) else (.error (.notPaused name), m) := by
  rw [unpause, withFound_of_find? h]
  split
  · next hs =>
    rw [become_eq, hs]
    rfl
  · rfl

theorem canBecome_exited {status : Status} (h : status.isLive) : status.canBecome .exited := by
  cases status <;> first | rfl | cases h

theorem kill_of_find? (h : m.find? name = some e) : m.kill name =
    if e.container.status.isLive then (.ok (), m.put (e.turned .exited)) else (.error (.notRunning name), m) := by
  rw [kill, withFound_of_find? h]
  split
  · next hl => rw [become_eq, if_pos (canBecome_exited hl)]
  · rfl

/-- A live container is not taken away without force. -/
theorem remove_of_isLive (h : m.find? name = some e) (hl : e.container.status.isLive) :
    ∃ text, m.remove name false = (.error (.conflict text), m) := by
  rw [remove, withFound_of_find? h, hl]
  exact ⟨_, rfl⟩

/-- A removal that is forced or of no live container depends on nothing but the container's state. -/
theorem remove_of_find? {forced : Bool} (h : m.find? name = some e)
    (hf : e.container.status.isLive → forced) :
    m.remove name forced = if e.container.status.canBecome .removing
      then (.ok (), { m with containers := m.containers.erase e.container.name })
      else (.error (.change ⟨e.container.status, .removing⟩), m) := by
  have hl : (e.container.status.isLive && !forced) = false := by
    cases hl : e.container.status.isLive
    · rfl
    · simp [hf hl]
  rw [remove, withFound_of_find? h, hl, become_eq]
  by_cases hc : e.container.status.canBecome .removing
  · simp only [Bool.false_eq_true, if_false, if_pos hc]
    simp [Status.change, put, show Status.canBecome .removing .notCreated = true from rfl]
  · simp only [Bool.false_eq_true, if_false, if_neg hc]

/-- A removal takes away the container that the name leads to, or it is refused and changes nothing. -/
theorem remove_cases (m : Memory) (name : String) (forced : Bool) :
    (∃ e, m.find? name = some e ∧ (e.container.status.isLive → forced) ∧ e.container.status.canBecome .removing ∧
      m.remove name forced = (.ok (), { m with containers := m.containers.erase e.container.name })) ∨
    ∃ x, m.remove name forced = (.error x, m) := by
  cases hf : m.find? name with
  | none => exact .inr ⟨_, withFound_of_find?_eq_none hf⟩
  | some e =>
    by_cases hl : e.container.status.isLive → forced
    · rw [remove_of_find? hf hl]
      split
      · next hc => exact .inl ⟨e, rfl, hl, hc, rfl⟩
      · exact .inr ⟨_, rfl⟩
    · obtain ⟨hlive, hforced⟩ := Classical.not_imp.1 hl
      obtain rfl : forced = false := by simpa using hforced
      obtain ⟨text, h⟩ := remove_of_isLive hf hlive
      exact .inr ⟨_, h⟩

/-- The removal of an image is done, or there is no such image or it is in use, and nothing changes. -/
theorem removeImage_cases (m : Memory) (reference : String) :
    ((m.images.contains reference ∧ ∀ e ∈ m.containers.values, e.container.image ≠ reference) ∧
      m.removeImage reference = (.ok (), { m with images := m.images.erase reference })) ∨
    ¬ (m.images.contains reference ∧ ∀ e ∈ m.containers.values, e.container.image ≠ reference) ∧
      (m.removeImage reference = (.error (.notFound reference), m) ∨
        ∃ text, m.removeImage reference = (.error (.conflict text), m)) := by
  unfold removeImage
  split
  · next hc =>
    have hc : m.images.contains reference = false := by simpa using hc
    exact .inr ⟨fun h => absurd (hc.symm.trans h.1) nofun, .inl rfl⟩
  · next hc =>
    split
    · next hu =>
      obtain ⟨e, he, hr⟩ := List.any_eq_true.1 hu
      exact .inr ⟨fun h => h.2 e he (by simpa using hr), .inr ⟨_, rfl⟩⟩
    · next hu => exact .inl ⟨⟨by simpa using hc, by simpa using hu⟩, rfl⟩

/-- A change of state from the runtime's own side is made as states may follow each other, or nothing changes. -/
theorem setStatus_cases (m : Memory) (name : String) (status : Status) :
    (∃ e, m.find? name = some e ∧ e.container.status.canBecome status ∧
      m.setStatus name status = (.ok (), m.put (e.turned status))) ∨
    ∃ x, m.setStatus name status = (.error x, m) := by
  cases hf : m.find? name with
  | none => exact .inr ⟨_, withFound_of_find?_eq_none hf⟩
  | some e =>
    rw [setStatus, withFound_of_find? hf, become_eq]
    split
    · next hc => exact .inl ⟨e, rfl, hc, rfl⟩
    · exact .inr ⟨_, rfl⟩

theorem create_of_get? {spec : Container.Spec} (h : m.containers.get? spec.name = some e) :
    ∃ text, m.create spec = (.error (.conflict text), m) := by
  unfold create
  rw [if_pos (SortedMap.contains_iff.2 ⟨e, h⟩)]
  exact ⟨_, rfl⟩

theorem create_of_get?_eq_none {spec : Container.Spec} (h : m.containers.get? spec.name = none) :
    m.create spec = (.ok ⟨hexId m.nextId⟩, { m.put (m.newEntry spec) with nextId := m.nextId + 1 }) := by
  unfold create
  rw [if_neg (by simp [SortedMap.contains_eq_false_iff.2 h])]
  rfl

end Change

section Start

/-- A container as a start leaves it that has found the host ports free. -/
def Entry.started (e : Entry) : Option Nat → Entry
  | some 0 => if e.container.status.canBecome .running then e.addressed.turned .running else e.addressed
  | delay => { e.addressed with pending := delay }

theorem Entry.continues_started (e : Entry) (delay : Option Nat) : e.Continues (e.started delay) := by
  unfold started
  split
  · split
    · next hc => exact ⟨⟨rfl, rfl, rfl, rfl, rfl, rfl⟩, .inr hc⟩
    · exact ⟨⟨rfl, rfl, rfl, rfl, rfl, rfl⟩, .inl rfl⟩
  · exact ⟨⟨rfl, rfl, rfl, rfl, rfl, rfl⟩, .inl rfl⟩

/-- Without a delay a start leaves the countdown alone. -/
theorem Entry.pending_started (e : Entry) : (e.started (some 0)).pending = e.pending := by
  change (if e.container.status.canBecome .running then e.addressed.turned .running else e.addressed).pending =
    e.pending
  split
  · rfl
  · rfl

theorem Entry.started_of_ne_zero {e : Entry} {delay : Option Nat} (h : delay ≠ some 0) :
    e.started delay = { e.addressed with pending := delay } := by
  unfold started
  split
  · exact absurd rfl h
  · rfl

/-- A start of a name comes upon one container first, and then goes on to the one that the name of that one leads to. -/
structure Aims (m : Memory) (name : String) (first e : Entry) : Prop where
  found : m.find? name = some first
  again : m.find? first.container.name = some e

variable {m : Memory} {name : String} {first e : Entry}

theorem Aims.unique {first' e' : Entry} (h : Aims m name first e) (h' : Aims m name first' e') :
    first = first' ∧ e = e' := by
  obtain rfl : first = first' := Option.some.inj (h.found.symm.trans h'.found)
  exact ⟨rfl, Option.some.inj (h.again.symm.trans h'.again)⟩

theorem Aims.start_eq (h : Aims m name first e) : m.start name =
    if e.container.status = .running then (.ok (), m)
    else match e.container.bindings.find? fun b => (m.portsInUse first.container.name).contains b.hostPort with
      | some b => (.error (.portAllocated
          s!"Bind for {b.hostIp}:{Text.ofNat b.hostPort.toNat} failed: port is already allocated"), m)
      | none => match m.startDelay with
        | some 0 => (m.put e.addressed).become e.addressed .running
        | delay => (.ok (), m.put { e.addressed with pending := delay }) :=
  (withFound_of_find? h.found).trans (withFound_of_find? h.again)

theorem Aims.start_of_running (h : Aims m name first e) (hs : e.container.status = .running) :
    m.start name = (.ok (), m) := by
  rw [h.start_eq, if_pos hs]

/-- Every host port of the container is free of all but the container found first. -/
def Free (m : Memory) (first e : Entry) : Prop :=
  ∀ b ∈ e.container.bindings, b.hostPort ∉ m.portsInUse first.container.name

theorem Aims.start_of_not_free (h : Aims m name first e) (hs : e.container.status ≠ .running)
    (hfree : ¬ Free m first e) : ∃ text, m.start name = (.error (.portAllocated text), m) := by
  rw [h.start_eq, if_neg hs]
  split
  · exact ⟨_, rfl⟩
  · next hnone =>
    have hfree' : Free m first e := by simpa [Free] using hnone
    exact absurd hfree' hfree

/-- A start that has found the ports free gives out the address. It fails only where there is no delay and running may
not follow the container's state. -/
theorem Aims.start_of_free (h : Aims m name first e) (hs : e.container.status ≠ .running) (hfree : Free m first e) :
    m.start name = (if m.startDelay = some 0 ∧ ¬ e.container.status.canBecome .running
      then .error (.change ⟨e.container.status, .running⟩) else .ok (), m.put (e.started m.startDelay)) := by
  have hnone : e.container.bindings.find? (fun b => (m.portsInUse first.container.name).contains b.hostPort) = none := by
    simpa [Free] using hfree
  rw [h.start_eq, if_neg hs, hnone]
  dsimp only
  split
  · next hd =>
    have hput : (m.put e.addressed).put (e.addressed.turned .running) = m.put (e.addressed.turned .running) :=
      put_put rfl
    rw [become_eq, hput, hd]
    by_cases hc : e.container.status.canBecome .running <;> simp [Entry.started, hc]
  · next hd =>
    rw [Entry.started_of_ne_zero hd, if_neg fun hcond => hd hcond.1]

/-- A start does what it does to the container that it goes on to, or it changes nothing. -/
theorem start_cases (m : Memory) (name : String) :
    (∃ first e, Aims m name first e ∧ e.container.status ≠ .running ∧ Free m first e) ∨ (m.start name).2 = m := by
  cases hf : m.find? name with
  | none => exact .inr (congrArg Prod.snd (withFound_of_find?_eq_none hf))
  | some first =>
    cases ha : m.find? first.container.name with
    | none => exact .inr (by rw [start, withFound_of_find? hf, withFound_of_find?_eq_none ha])
    | some e =>
      have h : Aims m name first e := ⟨hf, ha⟩
      by_cases hs : e.container.status = .running
      · exact .inr (by rw [h.start_of_running hs])
      · by_cases hfree : Free m first e
        · exact .inl ⟨first, e, h, hs, hfree⟩
        · obtain ⟨text, htaken⟩ := h.start_of_not_free hs hfree
          exact .inr (by rw [htaken])

end Start

section Outcome
variable {m : Memory}

/-- The name that a call is about, if it is about a container. -/
def target : Call → Option String
  | .inspect name | .start name | .pause name | .unpause name | .kill name | .remove name _ => some name
  | .create spec => some spec.name
  | .info | .list _ | .inspectImage _ | .listImages _ | .removeImage _ => none

/-- The changes of state that are called for. -/
inductive Turns : Call → Status → Status → Prop where
  | pause {name : String} : Turns (.pause name) .running .paused
  | unpause {name : String} : Turns (.unpause name) .paused .running
  | kill {name : String} {s : Status} (live : s.isLive) : Turns (.kill name) s .exited

theorem Turns.canBecome {c : Call} {s t : Status} (h : Turns c s t) : s.canBecome t := by
  cases h with
  | pause => rfl
  | unpause => rfl
  | kill live => exact canBecome_exited live

theorem Turns.isLive {c : Call} {s t : Status} (h : Turns c s t) : s.isLive := by
  cases h with
  | pause => rfl
  | unpause => rfl
  | kill live => exact live

/-- What a call makes of a runtime. Whatever is refused changes nothing, but for a start that had found the ports free. -/
inductive Outcome (m : Memory) : Call → Memory → Prop where
  | same (c : Call) : Outcome m c m
  | looked {name : String} {e : Entry} (found : m.find? name = some e) :
      Outcome m (.inspect name) (m.put e.advance)
  | created {spec : Container.Spec} (absent : m.containers.get? spec.name = none) :
      Outcome m (.create spec) { m.put (m.newEntry spec) with nextId := m.nextId + 1 }
  | started {name : String} {first e : Entry} (aims : Aims m name first e) (stopped : e.container.status ≠ .running)
      (free : Free m first e) : Outcome m (.start name) (m.put (e.started m.startDelay))
  | turned {c : Call} {name : String} {e : Entry} {status : Status} (about : target c = some name)
      (found : m.find? name = some e) (turns : Turns c e.container.status status) :
      Outcome m c (m.put (e.turned status))
  | removed {name : String} {forced : Bool} {e : Entry} (found : m.find? name = some e)
      (free : e.container.status.isLive → forced) (removable : e.container.status.canBecome .removing) :
      Outcome m (.remove name forced) { m with containers := m.containers.erase e.container.name }
  | dropped {reference : String} (unused : ∀ e ∈ m.containers.values, e.container.image ≠ reference) :
      Outcome m (.removeImage reference) { m with images := m.images.erase reference }

/-- A call about a name that leads nowhere changes nothing. -/
theorem Outcome.of_found {c : Call} {α : Type} {name : String} {act : Entry → Except Error α × Memory}
    (h : ∀ e, m.find? name = some e → Outcome m c (act e).2) : Outcome m c (m.withFound name act).2 := by
  cases hf : m.find? name with
  | none =>
    rw [withFound_of_find?_eq_none hf]
    exact .same c
  | some e =>
    rw [withFound_of_find? hf]
    exact h e hf

theorem Outcome.of_turns {c : Call} {name : String} {e : Entry} {status : Status} (about : target c = some name)
    (hf : m.find? name = some e) (ht : Turns c e.container.status status) : Outcome m c (m.become e status).2 := by
  rw [become_eq, if_pos ht.canBecome]
  exact .turned about hf ht

/-- There is nothing else that a call can do. -/
theorem outcome_of_call (m : Memory) (c : Call) : Outcome m c (answer c m).2 := by
  cases c with
  | info | list label | inspectImage reference | listImages label => exact .same _
  | inspect name => exact .of_found fun e hf => .looked hf
  | create spec =>
    cases hk : m.containers.get? spec.name with
    | none => simpa [answer, create_of_get?_eq_none hk] using Outcome.created hk
    | some e =>
      obtain ⟨text, h⟩ := create_of_get? hk
      simpa [answer, h] using Outcome.same (.create spec)
  | start name =>
    dsimp only [answer]
    rcases start_cases m name with ⟨first, e, ha, hs, hfree⟩ | h
    · rw [ha.start_of_free hs hfree]
      exact .started ha hs hfree
    · rw [h]
      exact .same _
  | pause name =>
    refine .of_found fun e hf => ?_
    split
    · exact .same _
    · next hs => exact .of_turns rfl hf (hs ▸ .pause)
    · exact .same _
  | unpause name =>
    refine .of_found fun e hf => ?_
    split
    · next hs => exact .of_turns rfl hf (hs ▸ .unpause)
    · exact .same _
  | kill name =>
    refine .of_found fun e hf => ?_
    split
    · next hs => exact .of_turns rfl hf (.kill hs)
    · exact .same _
  | remove name forced =>
    dsimp only [answer]
    rcases remove_cases m name forced with ⟨e, hf, hl, hr, h⟩ | ⟨x, h⟩ <;> rw [h]
    · exact .removed hf hl hr
    · exact .same _
  | removeImage reference =>
    dsimp only [answer]
    rcases removeImage_cases m reference with ⟨⟨_, hu⟩, h⟩ | ⟨_, h | ⟨text, h⟩⟩ <;> rw [h]
    · exact .dropped hu
    · exact .same _
    · exact .same _

end Outcome

end DevEnv.Runtime.Memory
