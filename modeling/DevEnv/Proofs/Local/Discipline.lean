import DevEnv.Proofs.Local.Parts
import DevEnv.Proofs.Trace

/-! The order in which a start and a destruction call the runtime, whatever it answers. Every change waits for the one
before it to succeed, and a change that fails is the last call of all. -/
namespace DevEnv.Local
open DevEnv.Action
open DevEnv.Runtime (Call)

/-- A call with the answer to it. -/
@[match_pattern] abbrev called (c : Call) (r : Except Runtime.Error c.Reply) : Exchange Runtime.interface := ⟨c, r⟩

/-- A change that failed. A container that was not running to be killed is as good as one that was. -/
inductive Failed : Exchange Runtime.interface → Prop where
  | create {spec : Container.Spec} {e : Runtime.Error} : Failed (called (.create spec) (.error e))
  | start {name : String} {e : Runtime.Error} : Failed (called (.start name) (.error e))
  | remove {name : String} {forced : Bool} {e : Runtime.Error} : Failed (called (.remove name forced) (.error e))
  | kill {name : String} {e : Runtime.Error} (h : ∀ n, e ≠ .notRunning n) : Failed (called (.kill name) (.error e))

/-- Nothing runs any more: it was killed, or there was nothing to kill. -/
def Ended (r : Except Runtime.Error Unit) : Prop := r = .ok () ∨ ∃ n, r = .error (.notRunning n)

def creates (x : Exchange Runtime.interface) : Bool := x.query matches .create _

def removes (x : Exchange Runtime.interface) : Bool := x.query matches .remove ..

/-- The order that the calls of a start keep, and what it comes to when one of them fails. -/
structure StartOrder (o : Options) (calls : List (Exchange Runtime.interface))
    (res : Option (Except Error Started)) : Prop where
  creates_once : calls.countP creates ≤ 1
  starts : ∀ before name r after, calls = before ++ called (.start name) r :: after →
    name = o.name ∧ ∃ spec id, called (.create spec) (.ok id) ∈ before
  removes_once : calls.countP removes ≤ 1
  /-- What is removed was inspected just before, and nothing was created yet. A live one is removed by force only. -/
  removal : ∀ before name forced r after, calls = before ++ called (.remove name forced) r :: after →
    name = o.name ∧ forced = o.forced ∧ before.countP creates = 0 ∧
      ∃ c, before.getLast? = some (called (.inspect o.name) (.ok c)) ∧ (forced = false → c.status.isLive = false)
  spares : ∀ x ∈ calls, ∀ name, x.query ≠ .kill name ∧ x.query ≠ .pause name ∧ x.query ≠ .unpause name ∧
    x.query ≠ .removeImage name
  failure : ∀ before x after, calls = before ++ x :: after → Failed x → after = [] ∧ ∃ e, res = some (.error e)

/-- The order that the calls of a destruction keep, and what it comes to when one of them fails. -/
structure DestroyOrder (name : String) (calls : List (Exchange Runtime.interface))
    (res : Option (Except Error (Option String))) : Prop where
  kills : ∀ before n r after, calls = before ++ called (.kill n) r :: after →
    n = name ∧ ∃ c, called (.inspect name) (.ok c) ∈ before
  removals : ∀ before n forced r after, calls = before ++ called (.remove n forced) r :: after →
    n = name ∧ forced = false ∧ ∃ ended, called (.kill name) ended ∈ before ∧ Ended ended
  /-- The image that is removed is that of the container inspected first. -/
  images : ∀ before reference r after, calls = before ++ called (.removeImage reference) r :: after →
    called (.remove name false) (.ok ()) ∈ before ∧
      ∃ c, before.head? = some (called (.inspect name) (.ok c)) ∧ c.image = reference
  failure : ∀ before x after, calls = before ++ x :: after → Failed x → after = [] ∧ ∃ e, res = some (.error e)

section Stops
variable {α : Type} {c : Call}

theorem stopsOn_attempt_bind {f : Except Runtime.Error c.Reply → Act α} (hf : ∀ r, StopsOn Failed (f r))
    (hc : ∀ r, Failed (called c r) → ∃ e, f r = throw e) : StopsOn Failed (attempt c >>= f) :=
  stopsOn_ask_bind fun r => ⟨hf r, hc r⟩

/-- A call whose failure ends the action stops it also when the failure is fatal. -/
theorem stopsOn_call : StopsOn Failed (call c) := by
  refine stopsOn_attempt_bind (fun _ => stopsOn_ofExcept) fun r hr => ?_
  cases r with
  | error e => exact ⟨.runtime e, rfl⟩
  | ok a => cases hr

theorem stopsOn_of_quiet {σ : Type} {P : Protocol Runtime.interface σ} {s : σ} {act : Act α}
    {Q : Except Error α → σ → Prop} (h : Follows P act s Q)
    (quiet : ∀ t c, P.allows t c → Reads c ∨ ∃ name, c = .inspect name) : StopsOn Failed act := by
  refine h.stopsOn fun t c r hc hr => ?_
  rcases quiet t c hc with (rfl | ⟨_, rfl⟩) | ⟨_, rfl⟩ <;> cases hr

end Stops

section Start
variable {p : Engine.Patience} {o : Options}

/-- How far a start has come. -/
inductive Progress where
  | resolving
  /-- A container of the name has just been seen. -/
  | looked (c : Container)
  | clear
  | created
  | launched
  | finished

/-- The calls that a start may make where it has come. -/
inductive Progress.Calls (o : Options) : Progress → Call → Prop where
  | info : Calls o .resolving .info
  | inspectImage {reference : String} : Calls o .resolving (.inspectImage reference)
  | look : Calls o .resolving (.inspect o.name)
  | remove {k : Container} (spared : o.forced = false → k.status.isLive = false) :
      Calls o (.looked k) (.remove o.name o.forced)
  | create {spec : Container.Spec} : Calls o .clear (.create spec)
  | start : Calls o .created (.start o.name)
  | watch : Calls o .launched (.inspect o.name)

/-- The calls of a start, one change after the other. -/
def progress (o : Options) : Protocol Runtime.interface Progress where
  allows := Progress.Calls o
  next
    | .resolving, .inspect _ => fun
      | .ok k => .looked k
      | .error (.notFound _) => .clear
      | .error _ => .finished
    | .looked _, .remove _ _ => fun
      | .ok _ => .clear
      | .error _ => .finished
    | .clear, .create _ => fun
      | .ok _ => .created
      | .error _ => .finished
    | .created, .start _ => fun
      | .ok _ => .launched
      | .error _ => .finished
    | s, _ => fun _ => s

private theorem permits_resolving : (progress o).Permits .resolving Reads := by
  rintro c (rfl | ⟨_, rfl⟩)
  · exact ⟨.info, fun _ => rfl⟩
  · exact ⟨.inspectImage, fun _ => rfl⟩

private theorem progress_clean : Follows (progress o) (clean o.name o.forced) .resolving fun r t =>
    ∀ x, r = .ok x → t = .clear := by
  refine follows_bind.2 (follows_attempt.2 ⟨.look, fun r => ?_⟩)
  dsimp only
  split
  · next k =>
    split
    · nofun
    · next hl =>
      have spared : o.forced = false → k.status.isLive = false := by
        intro hf
        simpa [hf] using hl
      refine follows_call.2 ⟨.remove spared, fun r => ?_⟩
      cases r with
      | ok _ => exact fun _ _ => rfl
      | error _ => nofun
  · exact fun _ _ => rfl
  · nofun

private theorem progress_launch : Follows (progress o) (launch o.name) .created fun r t =>
    ∀ x, r = .ok x → t = .launched := by
  refine follows_bind.2 (follows_attempt.2 ⟨.start, fun r => ?_⟩)
  dsimp only
  split
  · exact fun _ _ => rfl
  · nofun
  · nofun

private theorem watches_launched : Watches (progress o) o.name (· = .launched) fun _ => True where
  allows := by
    rintro _ rfl
    exact .watch
  keeps := by
    rintro _ _ rfl
    rfl
  ready _ _ := trivial

private theorem progress_bringUp : Follows (progress o) (bringUp p o) .created fun r t =>
    ∀ x, r = .ok x → t = .launched := by
  refine follows_bind.2 (progress_launch.mono ?_)
  rintro (e | _) t ht
  · nofun
  obtain rfl := ht _ rfl
  exact ((watches_launched.keeps_watch p o.timeout).await rfl).mono fun _ _ h _ _ => h.1

/-- A start makes its calls one after the other, whatever the runtime answers. -/
private theorem carries_progress : Carries (progress o) o .resolving .clear .created .launched where
  reads := permits_resolving
  clean := progress_clean
  create _ _ _ := ⟨.create, fun _ => rfl⟩
  bringUp _ := progress_bringUp
  inspect := by
    rintro _ rfl
    exact ⟨.watch, fun _ => rfl⟩

/-- What the calls of a start were when it has come so far. -/
def Progress.Reached (o : Options) (calls : List (Exchange Runtime.interface)) : Progress → Prop
  | .resolving => calls.countP creates = 0 ∧ calls.countP removes = 0
  | .looked k => calls.countP creates = 0 ∧ calls.countP removes = 0 ∧
      calls.getLast? = some (called (.inspect o.name) (.ok k))
  | .clear => calls.countP creates = 0 ∧ calls.countP removes ≤ 1
  | .created | .launched => calls.countP creates ≤ 1 ∧ calls.countP removes ≤ 1 ∧
      ∃ spec id, called (.create spec) (.ok id) ∈ calls
  | .finished => calls.countP creates ≤ 1 ∧ calls.countP removes ≤ 1

private theorem reached_next (calls : List (Exchange Runtime.interface)) (t : Progress)
    (x : Exchange Runtime.interface) (h : t.Reached o calls) (hx : (progress o).allows t x.query) :
    ((progress o).next t x.query x.answer).Reached o (calls ++ [x]) := by
  obtain ⟨c, r⟩ := x
  cases hx with
  | info | inspectImage =>
    obtain ⟨hc, hr⟩ := h
    simp [Progress.Reached, progress, creates, removes, hc, hr]
  | look =>
    obtain ⟨hc, hr⟩ := h
    rcases r with e | k
    · cases e <;> simp [Progress.Reached, progress, creates, removes, hc, hr]
    · simp [Progress.Reached, progress, creates, removes, hc, hr]
  | remove =>
    obtain ⟨hc, hr, -⟩ := h
    cases r <;> simp [Progress.Reached, progress, creates, removes, hc, hr]
  | @create spec =>
    obtain ⟨hc, hr⟩ := h
    cases r with
    | error e => simp [Progress.Reached, progress, creates, removes, hc, hr]
    | ok id =>
      have hid : called (.create spec) (.ok id) ∈ calls ++ [called (.create spec) (.ok id)] := by simp
      refine ⟨?_, ?_, spec, id, hid⟩
      · simp [creates, hc]
      · simpa [removes] using hr
  | start =>
    obtain ⟨hc, hr, spec, id, hid⟩ := h
    cases r with
    | error e => simp [Progress.Reached, progress, creates, removes, hc, hr]
    | ok _ =>
      refine ⟨?_, ?_, spec, id, List.mem_append_left _ hid⟩
      · simpa [creates] using hc
      · simpa [removes] using hr
  | watch =>
    obtain ⟨hc, hr, spec, id, hid⟩ := h
    refine ⟨?_, ?_, spec, id, List.mem_append_left _ hid⟩
    · simpa [creates] using hc
    · simpa [removes] using hr

theorem Progress.Reached.counts {calls : List (Exchange Runtime.interface)} {t : Progress} (h : t.Reached o calls) :
    calls.countP creates ≤ 1 ∧ calls.countP removes ≤ 1 := by
  cases t with
  | resolving =>
    obtain ⟨hc, hr⟩ := h
    omega
  | looked k =>
    obtain ⟨hc, hr, -⟩ := h
    omega
  | clear =>
    obtain ⟨hc, hr⟩ := h
    omega
  | created | launched => exact ⟨h.1, h.2.1⟩
  | finished => exact h

/-- A failed change is the end of a start. -/
theorem stopsOn_start : StopsOn Failed (start p o) := by
  have hostOnly (t : Unit) (c : Call) (h : False) : Reads c ∨ ∃ name, c = .inspect name := h.elim
  have resolved : StopsOn Failed (resolve o) :=
    stopsOn_of_quiet (stays_resolve Protocol.permits_only) fun _ _ h => .inl h
  have picked : StopsOn Failed (Plan.pick freePort o.sshPort) :=
    stopsOn_of_quiet (P := .only fun _ => False) (s := ()) (Q := fun _ _ => True)
      (follows_pick (fun _ _ => trivial) fun _ => trivial) hostOnly
  have cleaned : StopsOn Failed (clean o.name o.forced) := by
    refine stopsOn_attempt_bind (fun r => ?_) fun r hr => nomatch hr
    split
    · split
      · exact stopsOn_throw
      · exact stopsOn_call
    · exact stopsOn_pure
    · exact stopsOn_throw
  have laidOut (a : Resolved) (ssh : UInt16) : StopsOn Failed (layOut o a ssh) :=
    stopsOn_of_quiet (P := .only fun _ => False) (s := ()) follows_layOut hostOnly
  have launched : StopsOn Failed (launch o.name) := by
    refine stopsOn_attempt_bind (fun r => ?_) fun r hr => ?_
    · split
      · exact stopsOn_pure
      · exact stopsOn_throw
      · exact stopsOn_throw
    · cases hr with
      | @start _ e => cases e <;> exact ⟨_, rfl⟩
  have awaited : StopsOn Failed (awaitRunning p o.name o.timeout) := by
    have watches : Watches (.only (· = .inspect o.name)) o.name (fun _ => True) fun _ => True :=
      ⟨fun _ => rfl, fun _ => trivial, fun _ _ => trivial⟩
    exact stopsOn_of_quiet (s := ()) ((watches.keeps_watch p o.timeout).await trivial) fun _ _ h => .inr ⟨_, h⟩
  rw [start_eq]
  exact resolved.bind fun a => picked.bind fun ssh => cleaned.bind fun _ => (laidOut a ssh).bind fun _ =>
    stopsOn_call.bind fun _ => (launched.bind fun _ => awaited).bind fun _ => stopsOn_call.bind fun _ => stopsOn_pure

theorem start_in_order {es : List (Exchange (Host.interface.sum Runtime.interface))}
    {res : Option (Except Error Started)} (hr : Runs (start p o) es res) : StartOrder o (asked es) res := by
  have hadmits : (progress o).Admits .resolving (asked es) := ((carries_progress.follows_start p).admits hr).1
  have reached {before after : List (Exchange Runtime.interface)} {x : Exchange Runtime.interface}
      (hes : asked es = before ++ x :: after) : ∃ t : Progress, t.Reached o before ∧ t.Calls o x.query := by
    rw [hes] at hadmits
    obtain ⟨hbefore, hx, -⟩ := Protocol.admits_append.1 hadmits
    exact ⟨_, hbefore.invariant reached_next ⟨rfl, rfl⟩, hx⟩
  have counts := (hadmits.invariant reached_next ⟨rfl, rfl⟩).counts
  constructor
  case creates_once => exact counts.1
  case removes_once => exact counts.2
  case starts =>
    intro before name r after hes
    obtain ⟨t, ht, hx⟩ := reached hes
    cases hx
    exact ⟨rfl, ht.2.2⟩
  case removal =>
    intro before name forced r after hes
    obtain ⟨t, ht, hx⟩ := reached hes
    cases hx with
    | remove spared => exact ⟨rfl, rfl, ht.1, _, ht.2.2, spared⟩
  case spares =>
    intro x hx name
    obtain ⟨before, after, hes⟩ := List.append_of_mem hx
    obtain ⟨t, -, hc⟩ := reached hes
    refine ⟨?_, ?_, ?_, ?_⟩ <;> intro hq <;> rw [hq] at hc <;> cases hc
  case failure =>
    intro before x after hes hx
    exact stopsOn_start.of_runs hr hes hx

end Start

section Destroy
variable {name : String}

/-- How far a destruction has come, with the container it has seen. -/
inductive Demise where
  | looking
  | seen (c : Container)
  | stopped (c : Container)
  | removed (c : Container)
  | finished

/-- The calls that a destruction may make where it has come. -/
inductive Demise.Calls (name : String) : Demise → Call → Prop where
  | look : Calls name .looking (.inspect name)
  | kill {k : Container} : Calls name (.seen k) (.kill name)
  | remove {k : Container} : Calls name (.stopped k) (.remove name false)
  | removeImage {k : Container} : Calls name (.removed k) (.removeImage k.image)

/-- The calls of a destruction, one change after the other. -/
def demise (name : String) : Protocol Runtime.interface Demise where
  allows := Demise.Calls name
  next
    | .looking, .inspect _ => fun
      | .ok k => .seen k
      | .error _ => .finished
    | .seen k, .kill _ => fun
      | .ok _ => .stopped k
      | .error (.notRunning _) => .stopped k
      | .error _ => .finished
    | .stopped k, .remove _ _ => fun
      | .ok _ => .removed k
      | .error _ => .finished
    | _, _ => fun _ => .finished

/-- A destruction makes its calls one after the other, whatever the runtime answers. -/
theorem demise_destroy : Follows (demise name) (destroy name) .looking fun _ _ => True := by
  refine follows_bind.2 (follows_attempt.2 ⟨.look, fun r => ?_⟩)
  dsimp only
  split
  · next k =>
    have stop : Follows (demise name) (stop name) (.seen k) fun r t => ∀ x, r = .ok x → t = .stopped k := by
      refine follows_bind.2 (follows_attempt.2 ⟨.kill, fun r => ?_⟩)
      dsimp only
      split
      · exact fun _ _ => rfl
      · exact fun _ _ => rfl
      · nofun
    have dropImage : Follows (demise name) (dropImage k.image) (.removed k) fun _ _ => True := by
      refine follows_bind.2 (follows_attempt.2 ⟨.removeImage, fun r => ?_⟩)
      dsimp only
      split <;> trivial
    refine follows_bind.2 (stop.mono ?_)
    rintro (e | _) t ht
    · trivial
    obtain rfl := ht _ rfl
    refine follows_bind.2 (follows_call.2 ⟨.remove, fun r => ?_⟩)
    cases r with
    | error _ => trivial
    | ok _ =>
      refine follows_bind.2 (dropImage.mono ?_)
      rintro (e | _) _ _ <;> trivial
  · trivial
  · trivial

/-- What the calls of a destruction were when it has come so far. -/
def Demise.Reached (name : String) (calls : List (Exchange Runtime.interface)) : Demise → Prop
  | .looking => calls = []
  | .seen k => calls = [called (.inspect name) (.ok k)]
  | .stopped k => ∃ ended, Ended ended ∧ calls = [called (.inspect name) (.ok k), called (.kill name) ended]
  | .removed k => ∃ ended, calls =
      [called (.inspect name) (.ok k), called (.kill name) ended, called (.remove name false) (.ok ())]
  | .finished => True

private theorem demise_next (calls : List (Exchange Runtime.interface)) (t : Demise)
    (x : Exchange Runtime.interface) (h : t.Reached name calls) (hx : (demise name).allows t x.query) :
    ((demise name).next t x.query x.answer).Reached name (calls ++ [x]) := by
  obtain ⟨c, r⟩ := x
  cases hx with
  | look =>
    obtain rfl : calls = [] := h
    cases r with
    | ok k => rfl
    | error e => trivial
  | kill =>
    obtain rfl := h
    rcases r with e | _
    · cases e with
      | notRunning n => exact ⟨_, .inr ⟨n, rfl⟩, rfl⟩
      | _ => trivial
    · exact ⟨_, .inl rfl, rfl⟩
  | remove =>
    obtain ⟨ended, -, rfl⟩ := h
    cases r with
    | ok _ => exact ⟨ended, rfl⟩
    | error e => trivial
  | removeImage => trivial

/-- A failed change is the end of a destruction. -/
theorem stopsOn_destroy : StopsOn Failed (destroy name) := by
  have stop : StopsOn Failed (stop name) := by
    refine stopsOn_attempt_bind (fun r => ?_) fun r hr => ?_
    · split
      · exact stopsOn_pure
      · exact stopsOn_pure
      · exact stopsOn_throw
    · cases hr with
      | @kill _ e hne => cases e <;> first | exact absurd rfl (hne _) | exact ⟨_, rfl⟩
  have dropImage (reference : String) : StopsOn Failed (dropImage reference) := by
    refine stopsOn_attempt_bind (fun r => ?_) fun r hr => nomatch hr
    split
    · exact stopsOn_pure
    · exact stopsOn_pure
    · exact stopsOn_pure
    · exact stopsOn_throw
  refine stopsOn_attempt_bind (fun r => ?_) fun r hr => nomatch hr
  split
  · exact stop.bind fun _ => stopsOn_call.bind fun _ => (dropImage _).bind fun _ => stopsOn_pure
  · exact stopsOn_pure
  · exact stopsOn_throw

theorem destroy_in_order {es : List (Exchange (Host.interface.sum Runtime.interface))}
    {res : Option (Except Error (Option String))} (hr : Runs (destroy name) es res) :
    DestroyOrder name (asked es) res := by
  have reached {before after : List (Exchange Runtime.interface)} {x : Exchange Runtime.interface}
      (hes : asked es = before ++ x :: after) : ∃ t : Demise, t.Reached name before ∧ t.Calls name x.query := by
    have hadmits := (demise_destroy.admits hr).1
    rw [hes] at hadmits
    obtain ⟨hbefore, hx, -⟩ := Protocol.admits_append.1 hadmits
    exact ⟨_, hbefore.invariant demise_next rfl, hx⟩
  constructor
  case kills =>
    intro before n r after hes
    obtain ⟨t, ht, hx⟩ := reached hes
    cases hx
    obtain rfl := ht
    exact ⟨rfl, _, List.mem_singleton_self _⟩
  case removals =>
    intro before n forced r after hes
    obtain ⟨t, ht, hx⟩ := reached hes
    cases hx
    obtain ⟨ended, hended, rfl⟩ := ht
    exact ⟨rfl, rfl, ended, by simp, hended⟩
  case images =>
    intro before reference r after hes
    obtain ⟨t, ht, hx⟩ := reached hes
    cases hx
    obtain ⟨ended, rfl⟩ := ht
    exact ⟨by simp, _, rfl, rfl⟩
  case failure =>
    intro before x after hes hx
    exact stopsOn_destroy.of_runs hr hes hx

end Destroy

/-- Whatever a runtime answers, a start and a destruction call it in order, and the first change to fail ends them. -/
theorem calls_in_order (p : Engine.Patience) (o : Options) (name : String) :
    (∀ es res, Runs (start p o) es res → StartOrder o (asked es) res) ∧
      ∀ es res, Runs (destroy name) es res → DestroyOrder name (asked es) res :=
  ⟨fun _ _ => start_in_order, fun _ _ => destroy_in_order⟩

/-- A start in the place of an environment that has ended. -/
def restart : Options :=
  { image := some "mnist:dev", name := "mnist", buildContext := "/work/mnist", sshPort := 10022,
    source := .docker (some {}) [] }

/-- A container as an inspection shows it. -/
def shown (status : Status) : Container :=
  { id := ⟨"0001"⟩, name := "mnist", image := "mnist:dev", status, labels := ∅, bindings := [], address := "" }

theorem calls_in_order_restart :
    (∃ spec s, StartOrder restart
      [called (.inspect "mnist") (.ok (shown .exited)), called (.remove "mnist" false) (.ok ()),
        called (.create spec) (.ok ⟨"0002"⟩), called (.start "mnist") (.ok ()),
        called (.inspect "mnist") (.ok (shown .running)), called (.inspect "mnist") (.ok (shown .running))]
      (some (.ok s))) ∧
    DestroyOrder "mnist"
      [called (.inspect "mnist") (.ok (shown .exited)), called (.kill "mnist") (.error (.notRunning "mnist")),
        called (.remove "mnist" false) (.ok ()), called (.removeImage "mnist:dev") (.ok ())]
      (some (.ok (some "mnist"))) := by
  have hstart : Runs (start ⟨⟨1⟩, 1⟩ restart)
      [⟨.inr (.inspect "mnist"), .ok (shown .exited)⟩, ⟨.inr (.remove "mnist" false), .ok ()⟩,
        ⟨.inr (.create _), .ok ⟨"0002"⟩⟩, ⟨.inr (.start "mnist"), .ok ()⟩, ⟨.inl .now, ⟨0⟩⟩, ⟨.inl .cancelled, false⟩,
        ⟨.inr (.inspect "mnist"), .ok (shown .running)⟩, ⟨.inr (.inspect "mnist"), .ok (shown .running)⟩]
      (some (.ok _)) :=
    .ask (.ask (.ask (.ask (.ask (.ask (.ask (.ask (.done _))))))))
  have hdestroy : Runs (destroy "mnist")
      [⟨.inr (.inspect "mnist"), .ok (shown .exited)⟩, ⟨.inr (.kill "mnist"), .error (.notRunning "mnist")⟩,
        ⟨.inr (.remove "mnist" false), .ok ()⟩, ⟨.inr (.removeImage "mnist:dev"), .ok ()⟩]
      (some (.ok (some "mnist"))) :=
    .ask (.ask (.ask (.ask (.done _))))
  exact ⟨⟨_, _, (calls_in_order ⟨⟨1⟩, 1⟩ restart "mnist").1 _ _ hstart⟩,
    (calls_in_order ⟨⟨1⟩, 1⟩ restart "mnist").2 _ _ hdestroy⟩

end DevEnv.Local
