import DevEnv.Proofs.Trace
import DevEnv.Proofs.Wait.Course
import DevEnv.Remote.Client

/-! What a start says to an environment server, whatever the server replies and whatever the clock shows. One request
creates the environment, and all others look for it under the name that the server has given it. -/
namespace DevEnv.Remote
open DevEnv.Action

section Replies
variable {α : Type} {a : Account} {name url : String} {value? : Json → Option α}

/-- The value that a reply holds, or why there is none. -/
def content (value? : Json → Option α) (url : String) : Response → Except Error α
  | .body bytes =>
    match (Json.readBytes? bytes).bind value? with
    | some v => .ok v
    | none => .error (.serialization "a reply is not of the expected form")
  | .refused status => .error (.http status url)
  | .unreached reason => .error (.transport reason)

/-- That the server does not know of a thing is no failure. -/
def unlessUnknown : Except Error α → Except Error (Option α)
  | .ok v => .ok (some v)
  | .error (.http 404 _) => .ok none
  | .error e => .error e

/-- What a look for an environment shows. -/
def sight (url : String) (reply : Response) : Except Error (Option Described) :=
  unlessUnknown (content Described.ofJson? url reply)

/-- Whether what was seen is an environment that runs. -/
def shows (seen : Option Described) : Bool := seen.any (·.phase = Described.running)

/-- What was seen in words. -/
def inWords : Except Error (Option Described) → String
  | .ok (some d) => if d.phase = "" then "unknown" else d.phase
  | .ok none => Status.notCreated.name
  | .error e => s!"unknown ({e.message})"

/-- The request that looks for an environment. -/
abbrev Account.lookup (a : Account) (name : String) : Request := ⟨.get, a.environmentUrl name, a.token, none⟩

theorem run_exchange_decode (r : Request) :
    (exchange r >>= decode value?).run = .ask (.inr r) fun reply => .done (content value? r.url reply) := by
  refine congrArg (Program.ask _) (funext fun reply => ?_)
  cases reply with
  | body bytes =>
    change (decode value? bytes).run = _
    unfold decode content
    dsimp only
    generalize (Json.readBytes? bytes).bind value? = v
    cases v <;> rfl
  | refused status => rfl
  | unreached reason => rfl

theorem run_known {act : Act α} : (known act).run = act.run.bind fun x => .done (unlessUnknown x) := by
  unfold known
  rw [run_bind, Action.outcome]
  refine (Program.bind_assoc _ _ _).trans (congrArg (Program.bind _) (funext fun x => ?_))
  dsimp only [Program.bind, Function.comp_apply]
  split
  · rfl
  · rfl
  · next e hne =>
    rw [unlessUnknown.eq_3 e hne]
    rfl

/-- A look for an environment is one request. -/
theorem run_fetch : (fetch a name).run =
    .ask (.inr (a.lookup name)) fun reply => .done (sight (a.environmentUrl name) reply) := by
  rw [fetch, run_known, get, run_exchange_decode]
  rfl

theorem run_isRunning : (isRunning a name).run =
    .ask (.inr (a.lookup name)) fun reply => .done ((sight (a.environmentUrl name) reply).map shows) := by
  unfold isRunning
  rw [run_bind, run_fetch]
  refine congrArg (Program.ask _) (funext fun reply => ?_)
  dsimp only [Program.bind]
  cases sight (a.environmentUrl name) reply <;> rfl

/-- The last question of a wait as one request. -/
abbrev lastLook (a : Account) (name : String) : Hosted interface String :=
  .ask (.inr (a.lookup name)) fun reply => .done (inWords (sight (a.environmentUrl name) reply))

theorem stateText_eq_lift : stateText a name = ExceptT.lift (lastLook a name) := by
  change (stateText a name).run = _
  unfold stateText
  rw [run_bind, Action.outcome, run_fetch]
  refine congrArg (Program.ask _) (funext fun reply => ?_)
  dsimp only [Program.bind, Function.comp_apply]
  rcases sight (a.environmentUrl name) reply with e | _ | d <;> rfl

end Replies

section Wait

/-- A step of a conversation: an exchange with the host or with the server. -/
abbrev Step : Type := Exchange (Host.interface.sum interface)

@[match_pattern] abbrev reading (t : Instant) : Step := ⟨.inl .now, t⟩
/-- A look at whether the user has called off the run. -/
@[match_pattern] abbrev heard (off : Bool) : Step := ⟨.inl .cancelled, off⟩
@[match_pattern] abbrev slept (span : Span) : Step := ⟨.inl (.sleep span), ()⟩
@[match_pattern] abbrev sent (r : Request) (reply : Response) : Step := ⟨.inr r, reply⟩

/-- What is said and heard after the first look at the clock, and what it comes to. -/
inductive Concludes {α : Type} (a : Account) (name : String) (timeout : Span) (deadline : Option Instant) (v : α) :
    List Step → Option (Except Error α) → Prop
  | cutOff : Concludes a name timeout deadline v [] none
  | calledOff : Concludes a name timeout deadline v [heard true] (some (.error (.cancelled name)))
  | ready {reply : Response} {seen : Option Described} (h : sight (a.environmentUrl name) reply = .ok seen)
    (hs : shows seen = true) :
    Concludes a name timeout deadline v [heard false, sent (a.lookup name) reply] (some (.ok v))
  | fault {reply : Response} {e : Error} (h : sight (a.environmentUrl name) reply = .error e) :
    Concludes a name timeout deadline v [heard false, sent (a.lookup name) reply] (some (.error e))
  /-- The server does not know the environment yet, or it does not run yet. -/
  | pending {reply : Response} {seen : Option Described} {t : Instant} {es : List Step} {res : Option (Except Error α)}
    (h : sight (a.environmentUrl name) reply = .ok seen) (hs : shows seen = false)
    (rest : Concludes a name timeout deadline v es res) :
    Concludes a name timeout deadline v (heard false :: sent (a.lookup name) reply :: reading t :: es) res
  /-- The time is over, and the server is asked once more for the state to report. -/
  | late {t : Instant} {reply : Response} (h : Watch.isReached t deadline = true) :
    Concludes a name timeout deadline v [reading t, sent (a.lookup name) reply]
      (some (.error (.timeout name timeout (inWords (sight (a.environmentUrl name) reply)))))
  | glanced {t : Instant} {es : List Step} {res : Option (Except Error α)}
    (rest : Concludes a name timeout deadline v es res) : Concludes a name timeout deadline v (reading t :: es) res
  | napped {span : Span} {es : List Step} {res : Option (Except Error α)}
    (rest : Concludes a name timeout deadline v es res) :
    Concludes a name timeout deadline v (heard false :: slept span :: es) res

variable {α : Type} {a : Account} {name : String} {timeout : Span} {deadline : Option Instant} {v : α} {es : List Step}
  {res : Option (Except Error α)}

/-- A step of a wait as it is seen in the conversation. -/
inductive Seen (a : Account) (name : String) : Watch.Event → Step → Prop
  | host {q : Host.Query} {r : q.Answer} : Seen a name ⟨.inl q, r⟩ ⟨.inl q, r⟩
  | ready {reply : Response} {seen : Option Described} {b : Bool}
    (h : sight (a.environmentUrl name) reply = .ok seen) (hb : shows seen = b) :
    Seen a name (.probed (.ok b)) (sent (a.lookup name) reply)
  | fault {reply : Response} {e : Error} (h : sight (a.environmentUrl name) reply = .error e) :
    Seen a name (.probed (.error e)) (sent (a.lookup name) reply)
  | told {reply : Response} {text : String} (h : inWords (sight (a.environmentUrl name) reply) = text) :
    Seen a name (.told text) (sent (a.lookup name) reply)

theorem seen_probed (reply : Response) :
    Seen a name (.probed ((sight (a.environmentUrl name) reply).map shows)) (sent (a.lookup name) reply) := by
  cases h : sight (a.environmentUrl name) reply with
  | error e => exact .fault h
  | ok seen => exact .ready h rfl

private theorem forall₂_seen_host {q : Host.Query} {r : q.Answer} {ws : List Watch.Event}
    (h : List.Forall₂ (Seen a name) (⟨.inl q, r⟩ :: ws) es) :
    ∃ rest, es = ⟨.inl q, r⟩ :: rest ∧ List.Forall₂ (Seen a name) ws rest := by
  obtain ⟨_, rest, hx, hrest, rfl⟩ := List.forall₂_cons_left_iff.1 h
  cases hx
  exact ⟨rest, rfl, hrest⟩

/-- The rounds of a wait, seen as a conversation. -/
theorem concludes_of_course {interval : Span} {steps : Nat} {phase : Watch.Phase} {ws : List Watch.Event}
    {r : Option (Except Error Unit)} (hc : Watch.Course name timeout interval deadline steps phase ws r)
    (hs : List.Forall₂ (Seen a name) ws es) : Concludes a name timeout deadline () es r := by
  induction hc generalizing es with
  | cutOff =>
    obtain rfl := List.forall₂_nil_left_iff.1 hs
    exact .cutOff
  | calledOff =>
    obtain ⟨_, rfl, h₁⟩ := forall₂_seen_host hs
    obtain rfl := List.forall₂_nil_left_iff.1 h₁
    exact .calledOff
  | fault =>
    obtain ⟨_, rfl, h₁⟩ := forall₂_seen_host hs
    obtain ⟨_, _, hprobed, h₂, rfl⟩ := List.forall₂_cons_left_iff.1 h₁
    obtain rfl := List.forall₂_nil_left_iff.1 h₂
    cases hprobed with
    | fault h => exact .fault h
  | ready =>
    obtain ⟨_, rfl, h₁⟩ := forall₂_seen_host hs
    obtain ⟨_, _, hprobed, h₂, rfl⟩ := List.forall₂_cons_left_iff.1 h₁
    obtain rfl := List.forall₂_nil_left_iff.1 h₂
    cases hprobed with
    | ready h hb => exact .ready h hb
  | notReady hc ih =>
    obtain ⟨_, rfl, h₁⟩ := forall₂_seen_host hs
    obtain ⟨_, _, hprobed, h₂, rfl⟩ := List.forall₂_cons_left_iff.1 h₁
    obtain ⟨_, rfl, h₃⟩ := forall₂_seen_host h₂
    cases hprobed with
    | ready h hb => exact .pending h hb (ih h₃)
  | late hd =>
    obtain ⟨_, rfl, h₁⟩ := forall₂_seen_host hs
    obtain ⟨_, _, htold, h₂, rfl⟩ := List.forall₂_cons_left_iff.1 h₁
    obtain rfl := List.forall₂_nil_left_iff.1 h₂
    cases htold with
    | told h =>
      subst h
      exact .late hd
  | due hd hn hc ih =>
    obtain ⟨_, rfl, h₁⟩ := forall₂_seen_host hs
    exact .glanced (ih h₁)
  | calledOffResting hd hn =>
    obtain ⟨_, rfl, h₁⟩ := forall₂_seen_host hs
    obtain ⟨_, rfl, h₂⟩ := forall₂_seen_host h₁
    obtain rfl := List.forall₂_nil_left_iff.1 h₂
    exact .glanced .calledOff
  | slumber hd hn hc ih =>
    obtain ⟨_, rfl, h₁⟩ := forall₂_seen_host hs
    obtain ⟨_, rfl, h₂⟩ := forall₂_seen_host h₁
    obtain ⟨_, rfl, h₃⟩ := forall₂_seen_host h₂
    exact .glanced (.napped (ih h₃))

/-- Every step of a wait is one exchange. -/
private theorem calls_eq_ask (a : Account) (name : String) (q : (Host.interface.sum Watch.Inquiry.interface).Query) :
    ∃ q', ∃ answer : (Host.interface.sum interface).Answer q' → (Host.interface.sum Watch.Inquiry.interface).Answer q,
      Watch.calls (isRunning a name) (lastLook a name) q = .ask q' (fun r => .done (answer r)) ∧
        ∀ r, Seen a name ⟨q, answer r⟩ ⟨q', r⟩ := by
  rcases q with q | _ | _
  · exact ⟨.inl q, id, rfl, fun _ => .host⟩
  · exact ⟨.inr (a.lookup name), _, run_isRunning, seen_probed⟩
  · exact ⟨.inr (a.lookup name), _, rfl, fun _ => .told rfl⟩

/-- A wait for an environment looks at the clock and then concludes, unless it is cut off. -/
theorem runs_awaitRunning {p : Engine.Patience} {r : Option (Except Error Unit)}
    (h : Runs (awaitRunning p a name timeout) es r) : ∃ begun rest, es = reading begun :: rest ∧
      Concludes a name timeout (begun.after? timeout) () rest r := by
  rw [Runs, awaitRunning, Watch.await_eq_interpret (w := watch p a name timeout) stateText_eq_lift] at h
  obtain ⟨ws, hws, hs⟩ := Program.runs_interpret (calls_eq_ask a name) h
  obtain ⟨t, ws', rfl, hcourse⟩ := Watch.course_of_runs_await hws
  obtain ⟨rest, rfl, hrest⟩ := forall₂_seen_host hs
  exact ⟨t, rest, rfl, concludes_of_course hcourse hrest⟩

end Wait

section Requests
variable {α : Type} {a : Account} {name : String} {timeout : Span} {deadline : Option Instant} {v : α} {es : List Step}
  {res : Option (Except Error α)}

/-- All that the server is asked is to look for the environment. -/
theorem Concludes.lookups (h : Concludes a name timeout deadline v es res) :
    ∀ x ∈ asked es, x.query = a.lookup name := by
  induction h with
  | cutOff | calledOff => exact nofun
  | ready | fault | late => exact List.forall_mem_singleton.2 rfl
  | pending h hs rest ih => exact List.forall_mem_cons.2 ⟨rfl, ih⟩
  | glanced rest ih | napped rest ih => exact ih

/-- What comes after a poll: nothing if it decides, and else a look at the clock. -/
inductive Polled (v : α) (res : Option (Except Error α)) : Except Error (Option Described) → List Step → Prop
  | ready {seen : Option Described} (hs : shows seen = true) (hr : res = some (.ok v)) : Polled v res (.ok seen) []
  | pending {seen : Option Described} {t : Instant} {rest : List Step} (hs : shows seen = false) :
    Polled v res (.ok seen) (reading t :: rest)
  | fault {e : Error} (hr : res = some (.error e)) : Polled v res (.error e) []

/-- Only what is said after a look at the user's wish is a poll. -/
private theorem of_suffix_cons {x : Step} {r : Request} {reply : Response} {after : List Step}
    (hp : heard false :: sent r reply :: after <:+ x :: es) (hx : x ≠ heard false) :
    heard false :: sent r reply :: after <:+ es := by
  rcases List.suffix_cons_iff.1 hp with hp | hp
  · exact absurd (List.cons.inj hp).1.symm hx
  · exact hp

theorem Concludes.polled (h : Concludes a name timeout deadline v es res) {r : Request} {reply : Response}
    {after : List Step} (hp : heard false :: sent r reply :: after <:+ es) :
    Polled v res (sight (a.environmentUrl name) reply) after := by
  induction h with
  | cutOff => cases List.suffix_nil.1 hp
  | calledOff => cases List.suffix_nil.1 (of_suffix_cons hp nofun)
  | ready h hs =>
    rcases List.suffix_cons_iff.1 hp with hp | hp
    · cases hp
      rw [h]
      exact .ready hs rfl
    · cases List.suffix_nil.1 (of_suffix_cons hp nofun)
  | fault h =>
    rcases List.suffix_cons_iff.1 hp with hp | hp
    · cases hp
      rw [h]
      exact .fault rfl
    · cases List.suffix_nil.1 (of_suffix_cons hp nofun)
  | pending h hs rest ih =>
    rcases List.suffix_cons_iff.1 hp with hp | hp
    · cases hp
      rw [h]
      exact .pending hs
    · exact ih (of_suffix_cons (of_suffix_cons hp nofun) nofun)
  | late h => cases List.suffix_nil.1 (of_suffix_cons (of_suffix_cons hp nofun) nofun)
  | glanced rest ih => exact ih (of_suffix_cons hp nofun)
  | napped rest ih =>
    rcases List.suffix_cons_iff.1 hp with hp | hp
    · cases hp
    · exact ih (of_suffix_cons hp nofun)

/-- A wait succeeds only by a last poll that shows the environment running. -/
theorem Concludes.success (h : Concludes a name timeout deadline v es res) {w : α} (hw : res = some (.ok w)) :
    w = v ∧ ∃ reply seen, [heard false, sent (a.lookup name) reply] <:+ es ∧
      sight (a.environmentUrl name) reply = .ok seen ∧ shows seen = true := by
  induction h with
  | cutOff | calledOff | fault | late => cases hw
  | ready h hs =>
    cases hw
    exact ⟨rfl, _, _, List.suffix_refl _, h, hs⟩
  | pending h hs rest ih =>
    obtain ⟨hv, reply, seen, hsuffix, hseen⟩ := ih hw
    exact ⟨hv, reply, seen, hsuffix.trans (List.suffix_append [heard false, sent _ _, reading _] _), hseen⟩
  | glanced rest ih =>
    obtain ⟨hv, reply, seen, hsuffix, hseen⟩ := ih hw
    exact ⟨hv, reply, seen, hsuffix.trans (List.suffix_cons ..), hseen⟩
  | napped rest ih =>
    obtain ⟨hv, reply, seen, hsuffix, hseen⟩ := ih hw
    exact ⟨hv, reply, seen, hsuffix.trans (List.suffix_append [heard false, slept _] _), hseen⟩

/-- The server is asked only when the user was just heard not to have called off the run. -/
def Heeds (x y : Step) : Prop := ∀ r reply, y = sent r reply → x = heard false

theorem heeds_host {x : Step} {q : Host.Query} {r : q.Answer} : Heeds x ⟨.inl q, r⟩ := nofun

theorem heeds_heard {y : Step} : Heeds (heard false) y := fun _ _ _ => rfl

theorem sight_ne_timeout {url : String} {reply : Response} {n text : String} {span : Span} :
    sight url reply ≠ .error (.timeout n span text) := by
  intro h
  unfold sight unlessUnknown content at h
  cases reply <;> grind

/-- The server is polled, and asked once more only when the time is over. -/
theorem Concludes.heeds (h : Concludes a name timeout deadline v es res) :
    (∀ text, res ≠ some (.error (.timeout name timeout text))) ∧ (∀ x, (x :: es).IsChain Heeds) ∨
      ∃ before t reply, es = before ++ [reading t, sent (a.lookup name) reply] ∧ (∀ x, (x :: before).IsChain Heeds) ∧
        Watch.isReached t deadline = true ∧
        res = some (.error (.timeout name timeout (inWords (sight (a.environmentUrl name) reply)))) := by
  induction h with
  | cutOff => exact .inl ⟨nofun, fun x => .singleton x⟩
  | calledOff => exact .inl ⟨nofun, fun x => .cons_cons heeds_host (.singleton _)⟩
  | ready h hs => exact .inl ⟨nofun, fun x => .cons_cons heeds_host (.cons_cons heeds_heard (.singleton _))⟩
  | fault h =>
    refine .inl ⟨?_, fun x => .cons_cons heeds_host (.cons_cons heeds_heard (.singleton _))⟩
    rintro text ⟨⟩
    exact sight_ne_timeout h
  | @late t reply hd => exact .inr ⟨[], t, reply, rfl, fun x => .singleton x, hd, rfl⟩
  | pending h hs rest ih =>
    have hcons {l : List Step} {t : Instant} {reply : Response} (hl : (reading t :: l).IsChain Heeds) (x : Step) :
        (x :: heard false :: sent (a.lookup name) reply :: reading t :: l).IsChain Heeds :=
      .cons_cons heeds_host (.cons_cons heeds_heard (.cons_cons heeds_host hl))
    rcases ih with ⟨hres, hes⟩ | ⟨before, t, reply, rfl, hbefore, hend⟩
    · exact .inl ⟨hres, hcons (hes _)⟩
    · exact .inr ⟨_ :: _ :: _ :: before, t, reply, rfl, hcons (hbefore _), hend⟩
  | glanced rest ih =>
    rcases ih with ⟨hres, hes⟩ | ⟨before, t, reply, rfl, hbefore, hend⟩
    · exact .inl ⟨hres, fun x => .cons_cons heeds_host (hes _)⟩
    · exact .inr ⟨_ :: before, t, reply, rfl, fun x => .cons_cons heeds_host (hbefore _), hend⟩
  | napped rest ih =>
    rcases ih with ⟨hres, hes⟩ | ⟨before, t, reply, rfl, hbefore, hend⟩
    · exact .inl ⟨hres, fun x => .cons_cons heeds_host (.cons_cons heeds_host (hes _))⟩
    · refine .inr ⟨_ :: _ :: before, t, reply, rfl, fun x => ?_, hend⟩
      exact .cons_cons heeds_host (.cons_cons heeds_host (hbefore _))

/-- What is made of the result changes nothing about the conversation. -/
theorem Concludes.map {β : Type} (f : α → β) (h : Concludes a name timeout deadline v es res) :
    Concludes a name timeout deadline (f v) es (res.map fun r => r.map f) := by
  induction h with
  | cutOff => exact .cutOff
  | calledOff => exact .calledOff
  | ready h hs => exact .ready h hs
  | fault h => exact .fault h
  | pending h hs rest ih => exact .pending h hs ih
  | late h => exact .late h
  | glanced rest ih => exact .glanced ih
  | napped rest ih => exact .napped ih

end Requests

section Start
variable {p : Engine.Patience} {a : Account} {o : Options}

/-- A start that a server can be asked for. -/
structure Acceptable (o : Options) : Prop where
  valid : o.validate = .ok ()
  source : o.source = .server
  image : ∃ image, o.image = some image ∧ image ≠ ""

/-- The request that creates an environment. -/
abbrev Account.creation (a : Account) (body : Json) : Request := ⟨.post, a.environmentsUrl, a.token, some body⟩

/-- What is returned of an environment that the server has created. -/
def started (d : Described) : Started := { sshPort, address := "", name := d.name, ports := d.ports }

theorem total_of_validate (h : o.validate = .ok ()) : ∃ n, o.gpu.total = .ok n := by
  cases hd : o.gpu.devices with
  | error e => grind [Options.validate]
  | ok ds => exact ⟨Gpu.Request.tally 0 ds, by rw [Gpu.Request.total, hd]; rfl⟩

theorem exists_requestOf (h : Acceptable o) : ∃ d, requestOf o = pure d := by
  obtain ⟨n, hn⟩ := total_of_validate h.valid
  obtain ⟨image, himage, hne⟩ := h.image
  have hfilter : o.image.filter (· ≠ "") = some image := by simp [himage, hne]
  unfold requestOf
  rw [h.source, hfilter, hn]
  exact ⟨_, rfl⟩

theorem requestOf_refused (hv : o.validate = .ok ()) (h : ¬ Acceptable o) : ∃ e, requestOf o = throw e := by
  unfold requestOf
  cases hs : o.source with
  | docker g mounts => exact ⟨_, rfl⟩
  | server =>
    cases hi : o.image.filter (· ≠ "") with
    | none => exact ⟨_, rfl⟩
    | some image =>
      obtain ⟨himage, hne⟩ := Option.filter_eq_some_iff.1 hi
      exact absurd ⟨hv, hs, image, himage, by simpa using hne⟩ h

/-- Nothing is asked for a start that a server cannot be asked for. -/
theorem run_start_refused (h : ¬ Acceptable o) : ∃ e, (start p a o).run = .done (.error e) := by
  unfold start
  cases hv : o.validate with
  | error e => exact ⟨.options e, rfl⟩
  | ok _ =>
    obtain ⟨e, he⟩ := requestOf_refused hv h
    rw [he]
    exact ⟨e, rfl⟩

/-- A start that a server can be asked for creates the environment and waits for it. -/
theorem run_start (h : Acceptable o) : ∃ body, (start p a o).run = .ask (.inr (a.creation body)) fun reply =>
    match content createdOfJson? a.environmentsUrl reply with
    | .error e => .done (.error e)
    | .ok d => (awaitRunning p a d.name o.timeout).run.bind fun r => .done (r.map fun () => started d) := by
  obtain ⟨d, hd⟩ := exists_requestOf h
  refine ⟨d.toJson, ?_⟩
  have hpost : (post a a.environmentsUrl d.toJson createdOfJson?).run = _ := run_exchange_decode _
  unfold start
  rw [h.valid, hd]
  change ((post a a.environmentsUrl d.toJson createdOfJson?) >>= fun created => do
    awaitRunning p a created.name o.timeout
    return started created).run = _
  rw [run_bind, hpost]
  refine congrArg (Program.ask _) (funext fun reply => ?_)
  dsimp only [Program.bind]
  cases content createdOfJson? a.environmentsUrl reply with
  | error e => rfl
  | ok created =>
    dsimp only
    rw [run_bind]
    refine congrArg (Program.bind _) (funext fun r => ?_)
    cases r <;> rfl

/-- What is said and heard once an environment was created. -/
structure Converses (a : Account) (d : Described) (timeout : Span) (es : List Step)
    (res : Option (Except Error Started)) : Prop where
  begun : ∃ t rest, es = reading t :: rest
  /-- Every request looks for the environment under the name that the server has given it. -/
  lookups : ∀ x ∈ asked es, x.query = a.lookup d.name
  polled : ∀ reply after, heard false :: sent (a.lookup d.name) reply :: after <:+ es →
    Polled (started d) res (sight (a.environmentUrl d.name) reply) after
  success : ∀ s, res = some (.ok s) → s.name = d.name ∧ s.ports = d.ports ∧ ∃ reply seen,
    [heard false, sent (a.lookup d.name) reply] <:+ es ∧
      sight (a.environmentUrl d.name) reply = .ok (some seen) ∧ seen.phase = Described.running
  /-- Unless the time is over, all requests are polls, -/
  heeded : (∀ text, res ≠ some (.error (.timeout d.name timeout text))) → es.IsChain Heeds
  /-- and if it is, all of them but the last one, which follows the look at the clock that shows it. -/
  late : ∀ text, res = some (.error (.timeout d.name timeout text)) → ∃ begun before t reply,
    es = reading begun :: (before ++ [reading t, sent (a.lookup d.name) reply]) ∧
      (reading begun :: before).IsChain Heeds ∧ Watch.isReached t (begun.after? timeout) = true

theorem Concludes.converses {d : Described} {timeout : Span} {begun : Instant} {es : List Step}
    {res : Option (Except Error Started)}
    (h : Concludes a d.name timeout (begun.after? timeout) (started d) es res) :
    Converses a d timeout (reading begun :: es) res where
  begun := ⟨begun, es, rfl⟩
  lookups := h.lookups
  polled _ _ hp := h.polled (of_suffix_cons hp nofun)
  success s hs := by
    obtain ⟨rfl, reply, seen, hsuffix, hsight, hshows⟩ := h.success hs
    cases seen with
    | none => cases hshows
    | some seen => exact ⟨rfl, rfl, reply, seen, hsuffix.trans (List.suffix_cons ..), hsight, of_decide_eq_true hshows⟩
  heeded hres := by
    rcases h.heeds with ⟨-, hes⟩ | ⟨_, _, _, -, -, -, htimeout⟩
    · exact hes _
    · exact absurd htimeout (hres _)
  late text hres := by
    rcases h.heeds with ⟨hne, -⟩ | ⟨before, t, reply, rfl, hbefore, ht, -⟩
    · exact absurd hres (hne text)
    · exact ⟨begun, before, t, reply, rfl, hbefore _, ht⟩

/-- Whatever a server replies and whenever the user calls off the run, a start that a server can be asked for asks it
first and once to create the environment, and then waits for the environment that was created; any other start asks
for nothing. -/
theorem start_converses {es : List Step} {res : Option (Except Error Started)} (h : Runs (start p a o) es res) :
    (¬ Acceptable o → es = [] ∧ ∃ e, res = some (.error e)) ∧
    (Acceptable o → ∃ body reply rest, es = sent (a.creation body) reply :: rest ∧
      (∀ e, content createdOfJson? a.environmentsUrl reply = .error e → rest = [] ∧ res = some (.error e)) ∧
      ∀ d, content createdOfJson? a.environmentsUrl reply = .ok d → Converses a d o.timeout rest res) := by
  constructor
  · intro ho
    obtain ⟨e, he⟩ := run_start_refused (p := p) (a := a) ho
    rw [Runs, he] at h
    obtain ⟨rfl, rfl⟩ := Program.runs_done.1 h
    exact ⟨rfl, e, rfl⟩
  · intro ho
    obtain ⟨body, hbody⟩ := run_start (p := p) (a := a) ho
    rw [Runs, hbody] at h
    obtain ⟨reply, rest, rfl, hrest⟩ := Program.runs_ask.1 h
    refine ⟨body, reply, rest, rfl, fun e he => ?_, fun d hd => ?_⟩
    · rw [he] at hrest
      obtain ⟨rfl, rfl⟩ := Program.runs_done.1 hrest
      exact ⟨rfl, rfl⟩
    · rw [hd] at hrest
      obtain ⟨r, hr, rfl⟩ := Program.runs_bind_done.1 hrest
      obtain ⟨begun, rest, rfl, hconcludes⟩ := runs_awaitRunning hr
      exact (hconcludes.map fun () => started d).converses

/-- A user of a server on the same machine. -/
def demoAccount : Account := { address := "http://localhost:8080", login := "demo" }

def remoteStart : Options :=
  { image := some "mnist:dev", name := "mnist", buildContext := "/work/mnist", source := .server }

theorem acceptable_remoteStart : Acceptable remoteStart := ⟨rfl, rfl, _, rfl, by decide⟩

/-- The server has created an environment called mnist-7. -/
def createdReply : Response := .body
  [123, 34, 101, 110, 118, 105, 114, 111, 110, 109, 101, 110, 116, 34, 58, 123, 34, 110, 97, 109, 101, 34, 58, 34, 109,
    110, 105, 115, 116, 45, 55, 34, 125, 125]

/-- The environment is in the phase that stands for running. -/
def runningReply : Response := .body
  [123, 34, 115, 116, 97, 116, 117, 115, 34, 58, 123, 34, 112, 104, 97, 115, 101, 34, 58, 34, 82, 117, 110, 110, 105,
    110, 103, 34, 125, 125]

/-- The server does not know the environment at first, and shows it running the second time it is asked. -/
def shortWait : List Step :=
  [reading ⟨0⟩, heard false, sent (demoAccount.lookup "mnist-7") (.refused 404), reading ⟨1⟩, reading ⟨2⟩, heard false,
    sent (demoAccount.lookup "mnist-7") runningReply]

private theorem runs_shortWait :
    Runs (awaitRunning ⟨⟨1⟩, 3⟩ demoAccount "mnist-7" remoteStart.timeout) shortWait (some (.ok ())) := by
  have hrunning : sight (demoAccount.environmentUrl "mnist-7") runningReply = .ok (some { phase := "Running" }) := by
    decide +kernel
  have hprobe : (watch ⟨⟨1⟩, 3⟩ demoAccount "mnist-7" remoteStart.timeout).probe.run = _ := run_isRunning
  have hlast : Runs ((watch ⟨⟨1⟩, 3⟩ demoAccount "mnist-7" remoteStart.timeout).poll
      ((⟨0⟩ : Instant).after? remoteStart.timeout) 1 .probing)
      [heard false, sent (demoAccount.lookup "mnist-7") runningReply] (some (.ok ())) := by
    rw [Runs, Watch.run_poll_probing]
    refine .ask ?_
    rw [if_neg Bool.false_ne_true, hprobe]
    refine .ask ?_
    dsimp only
    rw [hrunning]
    exact .done _
  exact .ask (.ask (.ask (.ask (.ask hlast))))

theorem start_converses_mnist : ∃ body s, s.name = "mnist-7" ∧
    Runs (start ⟨⟨1⟩, 3⟩ demoAccount remoteStart) (sent (demoAccount.creation body) createdReply :: shortWait)
      (some (.ok s)) ∧
    Converses demoAccount { name := "mnist-7" } remoteStart.timeout shortWait (some (.ok s)) := by
  have hcreated : content createdOfJson? demoAccount.environmentsUrl createdReply = .ok { name := "mnist-7" } := by
    decide +kernel
  obtain ⟨body, hbody⟩ := run_start (p := ⟨⟨1⟩, 3⟩) (a := demoAccount) acceptable_remoteStart
  have hruns : Runs (start ⟨⟨1⟩, 3⟩ demoAccount remoteStart)
      (sent (demoAccount.creation body) createdReply :: shortWait) (some (.ok (started { name := "mnist-7" }))) := by
    rw [Runs, hbody]
    refine .ask ?_
    rw [hcreated]
    exact Program.runs_bind_done.2 ⟨_, runs_shortWait, rfl⟩
  obtain ⟨_, _, _, hes, -, hconverses⟩ := (start_converses hruns).2 acceptable_remoteStart
  obtain ⟨hsent, rfl⟩ := List.cons.inj hes
  cases hsent
  exact ⟨body, _, rfl, hruns, hconverses _ hcreated⟩

end Start

end DevEnv.Remote
