import DevEnv.Proofs.Memory.History
import Mathlib.Data.List.Induction

/-! The host ports of containers on a runtime in memory. A start looks whether they are free but takes them only
when the container runs, so with a delay the last inspection of one container may find them taken by another. And it
leaves out the ports of the container that it finds first, which is not the one it starts if that one is identified by
the other's name. -/
namespace DevEnv.Runtime.Memory

/-- A runtime as it is, but without its containers. -/
def vacant (m : Memory) : Memory := { m with containers := ∅ }

/-- What a run of calls leaves of a runtime. -/
def afterCalls (calls : List Call) (m : Memory) : Memory := after (calls.map .call) m

def Entry.Binds (e : Entry) (port : UInt16) : Prop := ∃ b ∈ e.container.bindings, b.hostPort = port

/-- No two live containers bind one host port. -/
def Apart (m : Memory) : Prop := ∀ n e n' e' port, m.containers.get? n = some e → m.containers.get? n' = some e' →
  e.container.status.isLive → e'.container.status.isLive → e.Binds port → e'.Binds port → n = n'

/-- The call lets a container run while a live one binds one of its host ports: as the last inspection on its way to
running, or as a start without delay that found the live one first and so left its ports out. -/
inductive Clashes (m : Memory) : Call → Prop where
  | inspect {name n : String} {e x : Entry} {port : UInt16} (found : m.find? name = some e)
      (created : e.container.status = .created) (last : e.pending = some 0) (other : m.containers.get? n = some x)
      (live : x.container.status.isLive) (binds : e.Binds port) (taken : x.Binds port) : Clashes m (.inspect name)
  | start {name : String} {first e : Entry} {port : UInt16} (aims : Aims m name first e)
      (astray : e.container.name ≠ first.container.name) (free : Free m first e) (undelayed : m.startDelay = some 0)
      (runs : e.container.status.canBecome .running) (live : first.container.status.isLive) (binds : e.Binds port)
      (taken : first.Binds port) : Clashes m (.start name)

/-- No container has the name of one as its identifier but that one itself. -/
def Untangled (m : Memory) : Prop := ∀ n e, m.containers.get? n = some e → Undisputed m n

/-- The container runs, or a start of it was granted at some time. -/
def Entry.Granted (e : Entry) : Prop := e.container.status.isLive ∨ e.pending ≠ none

/-- No container that was granted a start binds a host port that is taken from outside. -/
def Clear (m : Memory) : Prop := ∀ n e port, m.containers.get? n = some e → e.Granted → e.Binds port → port ∉ m.occupied

/-- No inspection lets a container run. -/
structure Prompt (m : Memory) : Prop where
  delay : m.startDelay = none ∨ m.startDelay = some 0
  pending : ∀ n e, m.containers.get? n = some e → e.pending = none

section Steps
variable {m m' : Memory} {e e' : Entry} {k name : String} {c : Call} {port : UInt16}

theorem Entry.Akin.binds (h : e.Akin e') : e'.Binds port ↔ e.Binds port := by rw [Binds, Binds, h.bindings]

theorem mem_portsInUse : port ∈ m.portsInUse k ↔ port ∈ m.occupied ∨
    ∃ n x, n ≠ k ∧ m.containers.get? n = some x ∧ x.container.status.isLive ∧ x.Binds port := by
  simp only [portsInUse, List.mem_append, List.mem_flatMap, List.mem_filter, List.mem_map, Bool.and_eq_true,
    decide_eq_true_eq, Entry.Binds, SortedMap.get?_eq_some_iff]
  refine or_congr_right ⟨?_, ?_⟩
  · rintro ⟨⟨n, x⟩, ⟨hmem, hn, hl⟩, hb⟩
    exact ⟨n, x, hn, hmem, hl, hb⟩
  · rintro ⟨n, x, hn, hmem, hl, hb⟩
    exact ⟨(n, x), ⟨hmem, hn, hl⟩, hb⟩

theorem isLive_of_advance (h : e.advance.container.status.isLive) :
    e.container.status.isLive ∨ e.container.status = .created ∧ e.pending = some 0 := by
  unfold Entry.advance at h
  split at h
  · next hs =>
    split at h
    · next hp => exact .inr ⟨hs, hp⟩
    · exact .inl h
    · exact .inl h
  · exact .inl h

theorem isLive_of_started {delay : Option Nat} (h : (e.started delay).container.status.isLive) :
    e.container.status.isLive ∨ delay = some 0 ∧ e.container.status.canBecome .running := by
  unfold Entry.started at h
  split at h
  · split at h
    · next hc => exact .inr ⟨rfl, hc⟩
    · exact .inl h
  · exact .inl h

theorem granted_of_advance (h : e.advance.Granted) : e.Granted := by
  unfold Entry.advance at h
  split at h
  · split at h
    · next hp => exact .inr (by simp [hp])
    · next hp => exact .inr (by simp [hp])
    · exact h
  · exact h

/-- One container is filed that is not live or binds nothing that another live one binds. -/
theorem Apart.insert (ha : Apart m) (hc : m'.containers = m.containers.insert k e')
    (free : e'.container.status.isLive → ∀ n x port, m.containers.get? n = some x → x.container.status.isLive →
      e'.Binds port → x.Binds port → n = k) : Apart m' := by
  intro n x n' x' port hx hx' hl hl' hp hp'
  rw [hc] at hx hx'
  rcases SortedMap.get?_insert_cases hx with ⟨hn, rfl⟩ | hold <;>
    rcases SortedMap.get?_insert_cases hx' with ⟨hn', rfl⟩ | hold'
  · exact hn.trans hn'.symm
  · exact hn.trans (free hl _ _ _ hold' hl' hp hp').symm
  · exact (free hl' _ _ _ hold hl hp' hp).trans hn'.symm
  · exact ha _ _ _ _ _ hold hold' hl hl' hp hp'

theorem Apart.put (ha : Apart m) (hf : m.containers.get? e.container.name = some e) (hc : e.Continues e')
    (free : e'.container.status.isLive → e.container.status.isLive ∨ ∀ n x port, m.containers.get? n = some x →
      x.container.status.isLive → e.Binds port → x.Binds port → n = e.container.name) : Apart (m.put e') := by
  refine ha.insert (by rw [Memory.put, hc.name]) ?_
  intro hl n x port hx hlx hp hpx
  rw [hc.binds] at hp
  rcases free hl with hle | hfree
  · exact ha _ _ _ _ _ hx hf hlx hle hpx hp
  · exact hfree _ _ _ hx hlx hp hpx

theorem occupied_of_call (m : Memory) (c : Call) : (answer c m).2.occupied = m.occupied := by
  have ho := outcome_of_call m c
  generalize (answer c m).2 = m' at ho
  cases ho <;> rfl

theorem startDelay_of_call (m : Memory) (c : Call) : (answer c m).2.startDelay = m.startDelay := by
  have ho := outcome_of_call m c
  generalize (answer c m).2 = m' at ho
  cases ho <;> rfl

/-- No call but a creation makes for a container of a new name. -/
theorem name_of_call (hm : Sound m) {n : String} (hk : (answer c m).2.containers.get? n = some e) :
    (∃ x, m.containers.get? n = some x) ∨ ∃ spec, c = .create spec ∧ spec.name = n := by
  rcases (effect_of_operation hm (.call c)).before hk with ⟨x, hx, _⟩ | ⟨spec, hc, _, rfl⟩
  · exact .inl ⟨x, hx⟩
  · exact .inr ⟨spec, Operation.call.inj hc, (hm.call c).filed hk⟩

/-- A start lets nothing run on a taken host port but that of the container found first. -/
theorem Free.eq_first {first x : Entry} {n : String} (h : Free m first e) (hx : m.containers.get? n = some x)
    (hl : x.container.status.isLive) (hb : e.Binds port) (hbx : x.Binds port) : n = first.container.name := by
  obtain ⟨b, hmem, rfl⟩ := hb
  refine Decidable.byContradiction fun hn => ?_
  exact h b hmem (mem_portsInUse.2 (.inr ⟨n, x, hn, hx, hl, hbx⟩))

/-- No call but a clash brings two live containers to one host port. -/
theorem Apart.call (hm : Sound m) (ha : Apart m) (hc : ¬ Clashes m c) : Apart (answer c m).2 := by
  have ho := outcome_of_call m c
  generalize (answer c m).2 = m' at ho
  cases ho with
  | same _ => exact ha
  | @looked name e hf =>
    refine ha.put (hm.get?_of_find? hf) e.continues_advance fun hl => ?_
    refine (isLive_of_advance hl).imp_right ?_
    rintro ⟨hs, hp⟩ n x port hx hlx hb hbx
    exact absurd (.inspect hf hs hp hx hlx hb hbx) hc
  | created _ => exact ha.insert rfl nofun
  | @started name first e aims _ free =>
    refine ha.put (hm.get?_of_find? aims.again) (e.continues_started _) fun hl => ?_
    refine (isLive_of_started hl).imp_right ?_
    rintro ⟨hd, hr⟩ n x port hx hlx hb hbx
    obtain rfl := free.eq_first hx hlx hb hbx
    obtain rfl : first = x := Option.some.inj ((hm.get?_of_find? aims.found).symm.trans hx)
    exact Decidable.byContradiction fun hne => hc (.start aims (Ne.symm hne) free hd hr hlx hb hbx)
  | turned _ hf ht =>
    exact ha.put (hm.get?_of_find? hf) (Entry.continues_turned ht.canBecome) fun _ => .inl ht.isLive
  | removed _ _ _ =>
    intro n x n' x' port hx hx'
    exact ha n x n' x' port (SortedMap.get?_of_get?_erase hx) (SortedMap.get?_of_get?_erase hx')
  | dropped _ => exact ha

/-- A container that comes to run beside a live one of another name with one of its host ports is not apart from it. -/
theorem not_apart_put {x : Entry} {n : String} (hx : m.containers.get? n = some x) (hl : x.container.status.isLive)
    (hne : n ≠ e.container.name) (hle : e.container.status.isLive) (hb : e.Binds port) (hbx : x.Binds port) :
    ¬ Apart (m.put e) := by
  intro ha
  refine hne (ha n x e.container.name e port ?_ ?_ hl hle hbx hb)
  · rw [Memory.put, SortedMap.get?_insert_ne hne, hx]
  · rw [Memory.put, SortedMap.get?_insert_self]

/-- A clash leaves two live containers on one host port. -/
theorem not_apart_of_clashes (hm : Sound m) (hc : Clashes m c) : ¬ Apart (answer c m).2 := by
  cases hc with
  | @inspect name n e x port hf hs hp hx hlx hb hbx =>
    have hadv : e.advance = e.turned .running := by simp [Entry.advance, hs, hp]
    have hne : n ≠ e.container.name := by
      rintro rfl
      obtain rfl : e = x := Option.some.inj ((hm.get?_of_find? hf).symm.trans hx)
      rw [hs] at hlx
      cases hlx
    dsimp only [answer]
    rw [inspect_of_find? hf, hadv]
    exact not_apart_put hx hlx hne rfl hb hbx
  | @start name first e port aims astray free hd hr hl hb hbx =>
    have hs : e.container.status ≠ .running := by
      intro hs
      rw [hs] at hr
      cases hr
    have hstarted : e.started m.startDelay = e.addressed.turned .running := by
      rw [hd]
      exact if_pos hr
    dsimp only [answer]
    rw [aims.start_of_free hs free, hstarted]
    exact not_apart_put (hm.get?_of_find? aims.found) hl (Ne.symm astray) rfl hb hbx

theorem Clear.insert (hm : Clear m) (hc : m'.containers = m.containers.insert k e')
    (ho : m'.occupied = m.occupied) (free : e'.Granted → ∀ port, e'.Binds port → port ∉ m.occupied) : Clear m' := by
  intro n x port hx hg hb
  rw [ho]
  rw [hc] at hx
  rcases SortedMap.get?_insert_cases hx with ⟨_, rfl⟩ | hx
  · exact free hg port hb
  · exact hm n x port hx hg hb

theorem Clear.put (hm : Clear m) (hf : m.containers.get? e.container.name = some e) (hc : e.Continues e')
    (hg : e'.Granted → e.Granted) : Clear (m.put e') := by
  refine hm.insert (by rw [Memory.put, hc.name]) rfl ?_
  intro h port hb
  exact hm _ _ _ hf (hg h) (hc.binds.1 hb)

/-- A start is granted only if no host port of the container is taken from outside. -/
theorem Clear.call (hm : Sound m) (hcl : Clear m) (c : Call) : Clear (answer c m).2 := by
  have ho := outcome_of_call m c
  generalize (answer c m).2 = m' at ho
  cases ho with
  | same _ => exact hcl
  | looked hf => exact hcl.put (hm.get?_of_find? hf) (Entry.continues_advance _) granted_of_advance
  | created _ => exact hcl.insert rfl rfl fun hg => absurd hg (by simp [Entry.Granted, newEntry, Status.isLive])
  | @started name first e _ _ free =>
    refine hcl.insert (by rw [Memory.put, (e.continues_started _).name]) rfl ?_
    intro _ port hb hocc
    obtain ⟨b, hmem, rfl⟩ := (e.continues_started _).binds.1 hb
    exact free b hmem (mem_portsInUse.2 (.inl hocc))
  | turned _ hf ht =>
    exact hcl.put (hm.get?_of_find? hf) (Entry.continues_turned ht.canBecome) fun _ => .inl ht.isLive
  | removed _ _ _ =>
    intro n x port hx
    exact hcl n x port (SortedMap.get?_of_get?_erase hx)
  | dropped _ => exact hcl

theorem Prompt.put (hp : Prompt m) (h : e'.pending = none) : Prompt (m.put e') :=
  ⟨hp.delay, forall_put hp.pending h⟩

theorem Prompt.call (hm : Sound m) (hp : Prompt m) (c : Call) : Prompt (answer c m).2 := by
  have ho := outcome_of_call m c
  generalize (answer c m).2 = m' at ho
  cases ho with
  | same _ => exact hp
  | looked hf =>
    have hn := hp.pending _ _ (hm.get?_of_find? hf)
    exact hp.put (by simp [Entry.advance, hn])
  | @created spec _ =>
    have hnew : Prompt (m.put (m.newEntry spec)) := hp.put rfl
    exact ⟨hp.delay, hnew.pending⟩
  | @started name first e aims _ _ =>
    have hn := hp.pending _ _ (hm.get?_of_find? aims.again)
    refine hp.put ?_
    rcases hp.delay with hd | hd <;> rw [hd]
    · rfl
    · rw [e.pending_started, hn]
  | @turned _ name e status _ hf _ =>
    have hn := hp.pending _ _ (hm.get?_of_find? hf)
    exact hp.put hn
  | removed _ _ _ => exact ⟨hp.delay, fun n x hx => hp.pending n x (SortedMap.get?_of_get?_erase hx)⟩
  | dropped _ => exact ⟨hp.delay, hp.pending⟩

/-- Without inspections that let containers run a clash takes a start that goes astray. -/
theorem Prompt.not_clashes (hm : Sound m) (hp : Prompt m) (h : m.startDelay = none ∨ Untangled m) :
    ¬ Clashes m c := by
  intro hc
  cases hc with
  | inspect found _ last => exact absurd ((hp.pending _ _ (hm.get?_of_find? found)).symm.trans last) nofun
  | @start name first e port aims astray _ undelayed =>
    rcases h with hd | hu
    · rw [hd] at undelayed
      cases undelayed
    · have hfirst := hm.get?_of_find? aims.found
      have hagain := (hu _ _ hfirst).find?_of_get? hfirst
      obtain rfl : e = first := Option.some.inj (aims.again.symm.trans hagain)
      exact astray rfl

end Steps

section Runs
variable {m : Memory} {calls : List Call}

theorem afterCalls_append (calls calls' : List Call) (m : Memory) :
    afterCalls (calls ++ calls') m = afterCalls calls' (afterCalls calls m) := by
  simp [afterCalls, after]

theorem afterCalls_concat (calls : List Call) (c : Call) (m : Memory) :
    afterCalls (calls ++ [c]) m = (answer c (afterCalls calls m)).2 := afterCalls_append calls [c] m

theorem sound_vacant (m : Memory) : Sound m.vacant := ⟨nofun, nofun, nofun⟩

theorem apart_vacant (m : Memory) : Apart m.vacant := by
  intro n e n' e' port hk
  cases hk

theorem clear_vacant (m : Memory) : Clear m.vacant := by
  intro n e port hk
  cases hk

theorem prompt_vacant {m : Memory} (h : m.startDelay = none ∨ m.startDelay = some 0) : Prompt m.vacant := by
  refine ⟨h, fun n e hk => ?_⟩
  cases hk

/-- What every call keeps holds after a run of calls. -/
theorem kept_afterCalls {J : Memory → Prop} (step : ∀ m c, J m → J (answer c m).2) (h : J m)
    (calls : List Call) : J (afterCalls calls m) := by
  induction calls generalizing m with
  | nil => exact h
  | cons c calls ih => exact ih (step m c h)

theorem Sound.afterCalls (hm : Sound m) (calls : List Call) : Sound (Memory.afterCalls calls m) :=
  kept_afterCalls (fun _ c h => h.call c) hm calls

/-- What is taken from outside stays free of containers that were granted a start. -/
theorem clear_afterCalls (hm : Sound m) (hc : Clear m) (n : String) (e : Entry) (port : UInt16)
    (hk : (afterCalls calls m).containers.get? n = some e) (hg : e.Granted) (hb : e.Binds port) :
    port ∉ m.occupied := by
  have h : Sound (afterCalls calls m) ∧ Clear (afterCalls calls m) ∧
      (afterCalls calls m).occupied = m.occupied := by
    refine kept_afterCalls (J := fun n => Sound n ∧ Clear n ∧ n.occupied = m.occupied) ?_ ⟨hm, hc, rfl⟩ calls
    rintro n c ⟨hn, hcl, ho⟩
    exact ⟨hn.call c, hcl.call hn c, (occupied_of_call n c).trans ho⟩
  rw [← h.2.2]
  exact h.2.1 n e port hk hg hb

/-- Host ports stay apart throughout a run just if there is no clash in it. -/
theorem apart_prefixes_iff (hm : Sound m) (ha : Apart m) : (∀ pre, pre <+: calls → Apart (afterCalls pre m)) ↔
    ∀ pre c, pre ++ [c] <+: calls → ¬ Clashes (afterCalls pre m) c := by
  constructor
  · intro h pre c hpre hc
    refine not_apart_of_clashes (hm.afterCalls pre) hc ?_
    rw [← afterCalls_concat]
    exact h _ hpre
  · intro h pre hpre
    induction pre using List.reverseRecOn with
    | nil => exact ha
    | append_singleton pre c ih =>
      rw [afterCalls_concat]
      exact (ih ((List.prefix_append pre [c]).trans hpre)).call (hm.afterCalls pre) (h pre c hpre)

theorem Prompt.afterCalls (hm : Sound m) (hp : Prompt m) (calls : List Call) : Prompt (Memory.afterCalls calls m) := by
  have h : Sound (Memory.afterCalls calls m) ∧ Prompt (Memory.afterCalls calls m) :=
    kept_afterCalls (J := fun n => Sound n ∧ Prompt n) (fun _ c h => ⟨h.1.call c, h.2.call h.1 c⟩) ⟨hm, hp⟩ calls
  exact h.2

theorem startDelay_afterCalls (calls : List Call) (m : Memory) : (afterCalls calls m).startDelay = m.startDelay :=
  kept_afterCalls (J := fun n => n.startDelay = m.startDelay) (fun n c h => (startDelay_of_call n c).trans h) rfl calls

/-- Where no inspection lets a container run, host ports stay apart if starts do nothing at once or never go astray. -/
theorem apart_of_prompt (hm : Sound m) (ha : Apart m) (hp : Prompt m)
    (h : m.startDelay = none ∨ ∀ pre, pre <+: calls → Untangled (afterCalls pre m)) : Apart (afterCalls calls m) := by
  refine (apart_prefixes_iff hm ha).2 (fun pre c hpre => ?_) calls List.prefix_rfl
  refine (hp.afterCalls hm pre).not_clashes (hm.afterCalls pre) (h.imp (fun hd => ?_) fun hu => ?_)
  · exact (startDelay_afterCalls pre m).trans hd
  · exact hu pre ((List.prefix_append pre [c]).trans hpre)

/-- As long as only names are given that are shorter than identifiers, none is the identifier of another container. -/
theorem untangled_afterCalls (hm : Sound m) (hn : ∀ n e, m.containers.get? n = some e → n.length < 64)
    (hc : ∀ spec, .create spec ∈ calls → spec.name.length < 64) : Untangled (afterCalls calls m) := by
  induction calls generalizing m with
  | nil => exact fun n e he => hm.undisputed (hn n e he)
  | cons c calls ih =>
    refine ih (hm.call c) (fun n e he => ?_) fun spec hspec => hc spec (List.mem_cons_of_mem c hspec)
    rcases name_of_call hm he with ⟨x, hx⟩ | ⟨spec, rfl, rfl⟩
    · exact hn n x hx
    · exact hc spec List.mem_cons_self

/-- A created container with a countdown runs when it has been inspected once more often than that. -/
theorem afterCalls_inspections (hm : Sound m) {name : String} {e : Entry} {k : Nat} (hf : m.find? name = some e)
    (hs : e.container.status = .created) (hp : e.pending = some k) :
    afterCalls (List.replicate (k + 1) (.inspect name)) m = m.put { e.turned .running with pending := some 0 } := by
  induction k generalizing m e with
  | zero =>
    have hadv : e.advance = { e.turned .running with pending := some 0 } := by
      rw [← hp]
      simp [Entry.advance, hs, hp]
    change (m.inspect name).2 = _
    rw [inspect_of_find? hf, hadv]
  | succ k ih =>
    have hadv : e.advance = { e with pending := some k } := by simp [Entry.advance, hs, hp]
    have hc := e.continues_advance
    change afterCalls (List.replicate (k + 1) (.inspect name)) (m.inspect name).2 = _
    rw [inspect_of_find? hf]
    rw [hadv] at hc ⊢
    rw [ih (hm.put hf hc) (hm.find?_put hf hc) hs rfl]
    exact put_put rfl

/-- Two containers on their way to one host port both come to run. -/
theorem not_apart_of_waiting (hm : Sound m) (e e' : Entry) {k : Nat} {port : UInt16}
    (hf : m.find? e.container.name = some e) (hf' : m.find? e'.container.name = some e')
    (hne : e.container.name ≠ e'.container.name) (hs : e.container.status = .created)
    (hs' : e'.container.status = .created) (hp : e.pending = some k) (hp' : e'.pending = some k) (hb : e.Binds port)
    (hb' : e'.Binds port) : ¬ Apart (afterCalls (List.replicate (k + 1) (.inspect e.container.name) ++
      List.replicate (k + 1) (.inspect e'.container.name)) m) := by
  -- the first container as it runs, with the second one still on its way
  let x : Entry := { e.turned .running with pending := some 0 }
  have hx : afterCalls (List.replicate (k + 1) (.inspect e.container.name)) m = m.put x :=
    afterCalls_inspections hm hf hs hp
  have hsound : Sound (m.put x) := hx ▸ hm.afterCalls _
  have hfound' : (m.put x).find? e'.container.name = some e' :=
    hm.find?_put_ne (hm.get?_of_find? hf) ⟨rfl, rfl, rfl, rfl, rfl, rfl⟩ hf' hne.symm
  have hget : (m.put x).containers.get? e.container.name = some x := SortedMap.get?_insert_self ..
  rw [afterCalls_append, hx, afterCalls_inspections hsound hfound' hs' hp']
  exact not_apart_put hget rfl hne rfl hb' hb

end Runs

section Rivals
variable {m : Memory} {name : String} {e : Entry}

/-- Nothing runs, and no host port is taken from outside. -/
structure Idle (m : Memory) : Prop where
  free : m.occupied = []
  created : ∀ n x, m.containers.get? n = some x → x.container.status = .created

private theorem idle_vacant (h : m.occupied = []) : Idle m.vacant := by
  refine ⟨h, fun n x hx => ?_⟩
  cases hx

private theorem Idle.put (hi : Idle m) (he : e.container.status = .created) : Idle (m.put e) :=
  ⟨hi.free, forall_put hi.created he⟩

/-- Where nothing runs, a start is granted. -/
theorem start_of_idle (hm : Sound m) (hi : Idle m) {k : Nat} (hf : m.find? e.container.name = some e)
    (hd : m.startDelay = some (k + 1)) :
    (answer (.start e.container.name) m).2 = m.put { e.addressed with pending := some (k + 1) } := by
  have hs : e.container.status ≠ .running := by
    rw [hi.created _ _ (hm.get?_of_find? hf)]
    nofun
  have hfree : Free m e e := by
    intro b _ hb
    rcases mem_portsInUse.1 hb with ho | ⟨n, x, _, hx, hl, _⟩
    · rw [hi.free] at ho
      cases ho
    · rw [hi.created n x hx] at hl
      cases hl
  have haims : Aims m e.container.name e e := ⟨hf, hf⟩
  dsimp only [answer]
  rw [haims.start_of_free hs hfree, hd]
  rfl

/-- The entry of a container that was granted a start and is still to run. -/
private abbrev Entry.waiting (e : Entry) (k : Nat) : Entry := { e.addressed with pending := some (k + 1) }

/-- The inspections after which two containers run that were granted a start. -/
private def inspections (name name' : String) (k : Nat) : List Call :=
  List.replicate (k + 1) (.inspect name) ++ List.replicate (k + 1) (.inspect name')

/-- Where nothing runs, two containers are both granted a start for one host port, and come to run. -/
theorem not_apart_of_idle (hm : Sound m) (hi : Idle m) (e e' : Entry) {k : Nat} {port : UInt16}
    (hd : m.startDelay = some (k + 1)) (hf : m.find? e.container.name = some e)
    (hf' : m.find? e'.container.name = some e') (hne : e.container.name ≠ e'.container.name)
    (hb : e.Binds port) (hb' : e'.Binds port) :
    ¬ Apart (afterCalls ([.start e.container.name, .start e'.container.name] ++
      inspections e.container.name e'.container.name (k + 1)) m) := by
  have hs := hi.created _ _ (hm.get?_of_find? hf)
  have hs' := hi.created _ _ (hm.get?_of_find? hf')
  have waits (x : Entry) : x.Continues (x.waiting k) := ⟨⟨rfl, rfl, rfl, rfl, rfl, rfl⟩, .inl rfl⟩
  -- the first one waits, and then both do
  let m₁ : Memory := m.put (e.waiting k)
  let m₂ : Memory := m₁.put (e'.waiting k)
  have hm₁ : Sound m₁ := hm.put hf (waits e)
  have hw : m₁.find? e.container.name = some (e.waiting k) := hm.find?_put hf (waits e)
  have hf₁ : m₁.find? e'.container.name = some e' :=
    hm.find?_put_ne (hm.get?_of_find? hf) (waits e).toAkin hf' hne.symm
  have hw₂ : m₂.find? e.container.name = some (e.waiting k) :=
    hm₁.find?_put_ne (hm₁.get?_of_find? hf₁) (waits e').toAkin hw hne
  have hw' : m₂.find? e'.container.name = some (e'.waiting k) := hm₁.find?_put hf₁ (waits e')
  have hstart : (answer (.start e.container.name) m).2 = m₁ := start_of_idle hm hi hf hd
  have hstart' : (answer (.start e'.container.name) m₁).2 = m₂ := start_of_idle hm₁ (hi.put hs) hf₁ hd
  have hstarts : afterCalls [.start e.container.name, .start e'.container.name] m = m₂ := by
    change (answer (.start e'.container.name) (answer (.start e.container.name) m).2).2 = m₂
    rw [hstart, hstart']
  rw [afterCalls_append, hstarts]
  exact not_apart_of_waiting (hm₁.put hf₁ (waits e')) (e.waiting k) (e'.waiting k) hw₂ hw' hne hs hs' rfl rfl hb hb'

/-- A container that is to be reached on a host port. -/
private def rival (name : String) : Container.Spec := { name, bindings := [⟨2222, "tcp", "127.0.0.1", 40100⟩] }

private theorem binds_rival (m : Memory) (name : String) : (m.newEntry (rival name)).Binds 40100 :=
  ⟨_, List.mem_singleton_self _, rfl⟩

/-- Two containers are started for one host port before either of them runs. -/
def rivals : List Call := [.create (rival "a"), .create (rival "b"), .start "a", .start "b"]

private theorem rivals_collide (k : Nat) :
    ¬ Apart (afterCalls (rivals ++ inspections "a" "b" (k + 1)) (vacant { startDelay := some (k + 1) })) := by
  -- the runtime before, and after each of the two containers was created
  let m₀ : Memory := vacant { startDelay := some (k + 1) }
  let a := m₀.newEntry (rival "a")
  let m₁ : Memory := { m₀.put a with nextId := m₀.nextId + 1 }
  let b := m₁.newEntry (rival "b")
  let m₂ : Memory := { m₁.put b with nextId := m₁.nextId + 1 }
  have hab : "a" ≠ "b" := by decide
  have hnone : m₁.containers.get? "b" = none := SortedMap.get?_insert_ne hab.symm
  have h₁ : (answer (.create (rival "a")) m₀).2 = m₁ := congrArg Prod.snd (create_of_get?_eq_none rfl)
  have h₂ : (answer (.create (rival "b")) m₁).2 = m₂ := congrArg Prod.snd (create_of_get?_eq_none hnone)
  have hcreated : afterCalls [.create (rival "a"), .create (rival "b")] m₀ = m₂ := by
    change (answer (.create (rival "b")) (answer (.create (rival "a")) m₀).2).2 = m₂
    rw [h₁, h₂]
  have idle₀ : Idle m₀ := idle_vacant rfl
  have idle₁ : Idle m₁ := ⟨rfl, (idle₀.put (e := a) rfl).created⟩
  have idle₂ : Idle m₂ := ⟨rfl, (idle₁.put (e := b) rfl).created⟩
  have hm₂ : Sound m₂ := ((sound_vacant _).create (rival "a")).create (rival "b")
  have hua : Undisputed m₂ "a" := hm₂.undisputed (by decide)
  have hub : Undisputed m₂ "b" := hm₂.undisputed (by decide)
  have ha : m₂.find? "a" = some a :=
    hua.find?_of_get? ((SortedMap.get?_insert_ne hab).trans (SortedMap.get?_insert_self ..))
  have hb : m₂.find? "b" = some b := hub.find?_of_get? (SortedMap.get?_insert_self ..)
  have hsplit : rivals ++ inspections "a" "b" (k + 1) = [.create (rival "a"), .create (rival "b")] ++
      ([.start "a", .start "b"] ++ inspections "a" "b" (k + 1)) := rfl
  rw [hsplit, afterCalls_append, hcreated]
  exact not_apart_of_idle hm₂ idle₂ a b rfl ha hb hab (binds_rival ..) (binds_rival ..)

private theorem untangled_rivals {calls : List Call} {k : Nat} (h : calls <+: rivals ++ inspections "a" "b" k) (m : Memory) :
    Untangled (afterCalls calls m.vacant) := by
  refine untangled_afterCalls (sound_vacant m) nofun fun spec hspec => ?_
  have hmem := h.subset hspec
  simp only [rivals, inspections, List.mem_append, List.mem_cons, List.mem_replicate, List.not_mem_nil, or_false,
    Call.create.injEq, reduceCtorEq, and_false, or_self] at hmem
  rcases hmem with rfl | rfl
  · decide
  · decide

/-- A container runs whose name is the next identifier. The container with that identifier is then to be reached on the
same host port, and the one that runs is started by its own identifier. -/
def strays : List Call := [.create (rival (hexId 2)), .start (hexId 2), .create (rival "b"), .start (hexId 1)]

/-- The order of the names turned round. -/
private def Order.descending : Order := ⟨fun _ names => names.reverse, fun _ names => names.reverse_perm⟩

private theorem strays_collide : ¬ Apart (afterCalls strays (vacant { order := .descending })) := by
  intro h
  have hb : hexId 2 = "b" := h (hexId 2) _ "b" _ 40100 rfl rfl rfl rfl ⟨_, List.mem_singleton.2 rfl, rfl⟩
    ⟨_, List.mem_singleton.2 rfl, rfl⟩
  exact absurd hb (by decide)

end Rivals

/-- Whatever the delay, no live container binds a host port that is taken from outside. Live containers stay apart
throughout a run just if no call lets a container run beside a live one that binds one of its host ports. They stay apart
in all runs just if no container ever comes to run; and in all those in which no container is named like the identifier
of another just if, besides, there is no delay. -/
theorem host_ports_apart (m : Memory) (calls : List Call) :
    (∀ n e port, (afterCalls calls m.vacant).containers.get? n = some e → e.container.status.isLive →
      e.Binds port → port ∉ m.occupied) ∧
    ((∀ pre, pre <+: calls → Apart (afterCalls pre m.vacant)) ↔
      ∀ pre c, pre ++ [c] <+: calls → ¬ Clashes (afterCalls pre m.vacant) c) ∧
    ∀ delay, ((∀ (m : Memory) calls, m.startDelay = delay → Apart (afterCalls calls m.vacant)) ↔ delay = none) ∧
      ((∀ (m : Memory) calls, m.startDelay = delay → (∀ pre, pre <+: calls → Untangled (afterCalls pre m.vacant)) →
        Apart (afterCalls calls m.vacant)) ↔ delay = none ∨ delay = some 0) := by
  have apart {m : Memory} (calls : List Call) (hd : m.startDelay = none ∨ m.startDelay = some 0)
      (h : m.startDelay = none ∨ ∀ pre, pre <+: calls → Untangled (afterCalls pre m.vacant)) :
      Apart (afterCalls calls m.vacant) := apart_of_prompt (sound_vacant m) (apart_vacant m) (prompt_vacant hd) h
  refine ⟨?_, apart_prefixes_iff (sound_vacant m) (apart_vacant m), fun delay => ⟨⟨fun h => ?_, ?_⟩, fun h => ?_, ?_⟩⟩
  · intro n e port hk hl
    exact clear_afterCalls (sound_vacant m) (clear_vacant m) n e port hk (.inl hl)
  · match delay with
    | none => rfl
    | some 0 => exact absurd (h _ _ rfl) strays_collide
    | some (k + 1) => exact absurd (h _ _ rfl) (rivals_collide k)
  · rintro rfl m calls hd
    exact apart calls (.inl hd) (.inl hd)
  · match delay with
    | none => exact .inl rfl
    | some 0 => exact .inr rfl
    | some (k + 1) => exact absurd (h _ _ rfl fun pre hpre => untangled_rivals hpre _) (rivals_collide k)
  · rintro hd m calls rfl hu
    exact apart calls hd (.inr hu)

/-- With a delay of one inspection two containers that were started for one host port are both live in the end. -/
theorem rivals_share_port : ¬ Apart (afterCalls (rivals ++ [.inspect "a", .inspect "a", .inspect "b", .inspect "b"])
    { startDelay := some 1 }) := by
  intro h
  have hab : "a" = "b" := h "a" _ "b" _ 40100 rfl rfl rfl rfl ⟨_, List.mem_singleton.2 rfl, rfl⟩
    ⟨_, List.mem_singleton.2 rfl, rfl⟩
  exact absurd hab (by decide)

end DevEnv.Runtime.Memory
