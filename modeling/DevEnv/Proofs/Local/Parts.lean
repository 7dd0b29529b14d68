import DevEnv.Local.Lifecycle
import DevEnv.Proofs.Plan
import DevEnv.Proofs.Wait

/-! The parts of a start and the calls that each of them makes.
Only the cleaning and the creation of the container change what the runtime holds. -/
namespace DevEnv.Local
open DevEnv.Action
open DevEnv.Runtime (Call)

/-- What a start settles first: its image and build graph, its devices and the mounts asked for. -/
structure Resolved where
  image : String
  graph : Graph
  devices : List Gpu.Device
  mountOptions : List String

/-- The graph given, or else the one recorded on the image. -/
def graphOf (given : Option Graph) (image : String) : Act Graph :=
  match given with
  | some g => return g
  | none => recordedGraph image

/-- The part of a start that comes before it takes a port. -/
def resolve (o : Options) : Act Resolved := do
  ofExcept .options o.validate
  let (given, mountOptions) ← sourceOf o
  let image ← imageOf o
  let graph ← graphOf given image
  ofExcept .graph graph.validate
  let devices ← devicesOf o
  return { image, graph, devices, mountOptions }

/-- The part of a start that lays out its mounts and ports. -/
def layOut (o : Options) (a : Resolved) (ssh : UInt16) : Act (List Container.Mount × Plan) := do
  let mounts ← ofExcept id (Container.mounts a.mountOptions a.graph o.buildContext)
  let plan ← Plan.make freePort a.graph o.sshHost ssh
  return (mounts, plan)

/-- The part of a start that brings up the container it created. -/
def bringUp (p : Engine.Patience) (o : Options) : Act Unit := do
  launch o.name
  awaitRunning p o.name o.timeout

/-- A start checks, takes a port, cleans, lays out, creates and brings up. -/
theorem start_eq (p : Engine.Patience) (o : Options) :
    start p o = do
      let a ← resolve o
      let ssh ← Plan.pick freePort o.sshPort
      clean o.name o.forced
      let (mounts, plan) ← layOut o a ssh
      let _ ← call (.create (specOf o a.image a.graph a.devices ssh mounts plan))
      bringUp p o
      let c ← call (.inspect o.name)
      return { sshPort := ssh, address := c.address, name := o.name, ports := plan.services } := by
  simp only [start, resolve, layOut, bringUp, bind_assoc, pure_bind]
  refine bind_congr fun _ => bind_congr fun (given, _) => bind_congr fun _ => ?_
  cases given <;> simp only [graphOf, pure_bind]


section Questions
variable {σ : Type} {P : Protocol Runtime.interface σ} {s : σ}

theorem follows_attempt {c : Call} {Q : Except Error (Except Runtime.Error c.Reply) → σ → Prop} :
    Follows P (attempt c) s Q ↔ P.allows s c ∧ ∀ r, Q (.ok r) (P.next s c r) := Iff.rfl

theorem follows_call {c : Call} {Q : Except Error c.Reply → σ → Prop} :
    Follows P (call c) s Q ↔
      P.allows s c ∧ ∀ r : Except Runtime.Error c.Reply, Q (r.mapError .runtime) (P.next s c r) := by
  simp only [call, follows_bind, follows_attempt, follows_ofExcept]

theorem follows_freePort {Q : Except Error UInt16 → σ → Prop} (ok : ∀ port, Q (.ok port) s)
    (error : ∀ reason, Q (.error (.io reason)) s) : Follows P freePort s Q := by
  refine follows_bind.2 (follows_host.2 fun r => follows_ofExcept.2 ?_)
  cases r with
  | ok port => exact ok port
  | error reason => exact error reason

theorem follows_pick {pinned : UInt16} {Q : Except Error UInt16 → σ → Prop}
    (ok : ∀ port, (pinned ≠ 0 → port = pinned) → Q (.ok port) s)
    (error : ∀ reason, Q (.error (.io reason)) s) :
    Follows P (Plan.pick freePort pinned) s Q := by
  unfold Plan.pick
  split
  · next h0 => exact follows_freePort (fun port => ok port fun hn => absurd h0 hn) error
  · exact ok pinned fun _ => rfl

section Layout
variable {g : Graph} {host : String} {ssh : UInt16} {p : Plan} {declared : List (UInt16 × String)}
  {hasJupyter hasRstudio : Bool}

/-- A layout of the declared services, or the reason why there is none. -/
private abbrev Leads (g : Graph) (host : String) (ssh : UInt16) (s : σ) (declared : List (UInt16 × String))
    (hasJupyter hasRstudio : Bool) : Except Error Plan → σ → Prop
  | .ok p, t => t = s ∧ p.Lays host ssh declared hasJupyter hasRstudio
  | .error e, t => t = s ∧ (Plan.checkReserved g = .error e ∨ ∃ reason, e = .io reason)

private theorem follows_addJupyter (h : p.Lays host ssh declared false hasRstudio) :
    Follows P (Plan.addJupyter freePort g p) s (Leads g host ssh s
      (declared ++ if g.jupyter.isSome then [(jupyterPort, jupyterService)] else []) g.jupyter.isSome
      hasRstudio) := by
  unfold Plan.addJupyter
  cases g.jupyter with
  | none => exact ⟨rfl, by simpa using h⟩
  | some j =>
    refine follows_bind.2 (follows_pick (fun port _ => ?_) fun _ => ⟨rfl, .inr ⟨_, rfl⟩⟩)
    exact ⟨rfl, h.addJupyter port⟩

private theorem follows_addRstudio (h : p.Lays host ssh declared hasJupyter false) :
    Follows P (Plan.addRstudio freePort g p) s (Leads g host ssh s
      (declared ++ if g.rstudio then [(rstudioPort, rstudioService)] else []) hasJupyter g.rstudio) := by
  unfold Plan.addRstudio
  cases g.rstudio with
  | false => exact ⟨rfl, by simpa using h⟩
  | true =>
    refine follows_bind.2 (follows_freePort (fun port => ?_) fun _ => ⟨rfl, .inr ⟨_, rfl⟩⟩)
    exact ⟨rfl, h.addRstudio port⟩

private theorem follows_addExposures {es : List Graph.Exposure}
    (hes : ∀ e ∈ es, Plan.Unreserved e.containerPort hasJupyter hasRstudio)
    (h : p.Lays host ssh declared hasJupyter hasRstudio) :
    Follows P (es.foldlM (Plan.addExposure freePort) p) s (Leads g host ssh s
      (declared ++ es.map fun e => (e.containerPort, Plan.exposureName e)) hasJupyter hasRstudio) := by
  induction es generalizing p declared with
  | nil => exact ⟨rfl, by simpa using h⟩
  | cons e es ih =>
    rw [List.foldlM_cons, List.map_cons, List.append_cons]
    refine follows_bind.2 (follows_bind.2 (follows_pick (fun port _ => ?_) fun _ => ⟨rfl, .inr ⟨_, rfl⟩⟩))
    exact ih (fun e he => hes e (List.mem_cons_of_mem _ he)) (h.addService (hes e List.mem_cons_self))

private theorem follows_services (hc : Plan.checkReserved g = .ok ()) : Follows P
    (do
      let p ← Plan.addJupyter freePort g (.ofSsh host ssh)
      let p ← Plan.addRstudio freePort g p
      g.exposures.foldlM (Plan.addExposure freePort) p) s
    (Leads g host ssh s (Plan.declared g) g.jupyter.isSome g.rstudio) := by
  refine follows_bind.2 ((follows_addJupyter (Plan.lays_ofSsh host ssh)).mono ?_)
  rintro (e | p) _ ⟨rfl, hp⟩
  · exact ⟨rfl, hp⟩
  refine follows_bind.2 ((follows_addRstudio hp).mono ?_)
  rintro (e | p) _ ⟨rfl, hp⟩
  · exact ⟨rfl, hp⟩
  exact follows_addExposures (fun e he => Plan.unreserved_of_checkReserved hc he) hp

/-- All that a graph declares is laid out, unless it is refused or there is no port for it. -/
theorem follows_make : Follows P (Plan.make freePort g host ssh) s fun
    | .ok p, t => t = s ∧ p.LaysOut g host ssh
    | .error e, t => t = s ∧ (Plan.checkReserved g = .error e ∨ ∃ reason, e = .io reason) := by
  unfold Plan.make
  cases hc : Plan.checkReserved g with
  | error e => exact ⟨rfl, .inl rfl⟩
  | ok u =>
    refine (follows_services hc).mono ?_
    rintro (e | p) _ ⟨rfl, hp⟩
    · exact ⟨rfl, hc ▸ hp⟩
    · exact ⟨rfl, hp, hc⟩

end Layout

/-- Why a start has no layout: by a mount option, by an exposure, or because the host has no port for it. -/
inductive LayoutFault (o : Options) (a : Resolved) : Error → Prop where
  | mount {e : Error} (h : Container.mounts a.mountOptions a.graph o.buildContext = .error e) :
      LayoutFault o a e
  | exposure {e : Error} (h : Plan.checkReserved a.graph = .error e) : LayoutFault o a e
  | port (reason : String) : LayoutFault o a (.io reason)

theorem LayoutFault.kind_ne_timeout {o : Options} {a : Resolved} {e : Error} (h : LayoutFault o a e) :
    e.kind ≠ .timeout := by
  cases h with
  | mount h => rw [Container.kind_of_mounts h]; nofun
  | exposure h => rw [Plan.kind_of_checkReserved h]; nofun
  | port reason => nofun

/-- The layout asks the host only, and what comes of it leads from the given port to SSH. -/
theorem follows_layOut {o : Options} {a : Resolved} {ssh : UInt16} :
    Follows P (layOut o a ssh) s fun
      | .ok x, t => t = s ∧ x.2.BindsSsh o.sshHost ssh
      | .error e, t => t = s ∧ LayoutFault o a e := by
  unfold layOut
  refine follows_bind.2 (follows_ofExcept.2 ?_)
  cases hm : Container.mounts a.mountOptions a.graph o.buildContext with
  | error e => exact ⟨rfl, .mount hm⟩
  | ok mounts =>
    refine follows_bind.2 (follows_make.mono ?_)
    rintro (e | plan) _ ⟨rfl, hp⟩
    · rcases hp with he | ⟨reason, rfl⟩
      · exact ⟨rfl, .exposure he⟩
      · exact ⟨rfl, .port reason⟩
    · exact ⟨rfl, hp.toBindsSsh⟩

/-- The calls by which a start resolves what it was asked for. -/
def Reads (c : Call) : Prop := c = .info ∨ ∃ reference, c = .inspectImage reference

/-- What a runtime complains about is neither the request nor the time it takes. -/
theorem kind_runtime (e : Runtime.Error) :
    (Error.runtime e).kind ≠ .invalid ∧ (Error.runtime e).kind ≠ .timeout := by
  cases e <;> exact ⟨nofun, nofun⟩

section Stays
variable {S : Call → Prop} {Fault : Error → Prop}

theorem stays_attempt {c : Call} (h : P.Permits s S) (hc : S c) : Stays P Fault (attempt c) s :=
  stays_ask (h c hc)

theorem stays_call {c : Call} (h : P.Permits s S) (hc : S c)
    (hf : ∀ e, Fault (.runtime e)) :
    Stays P Fault (call c) s :=
  (stays_attempt h hc).bind fun _ => stays_ofExcept fun _ _ => hf _

end Stays

/-- A fault other than that time is over. -/
private abbrev NoTimeout (e : Error) : Prop := e.kind ≠ .timeout

private theorem stays_recordedGraph (h : P.Permits s Reads) {image : String} :
    Stays P NoTimeout (recordedGraph image) s := by
  refine (stays_attempt h (.inr ⟨image, rfl⟩)).bind fun r => ?_
  split
  · exact (stays_ofExcept fun _ _ => nofun).bind fun _ => stays_pure
  · exact stays_throw nofun
  · exact stays_throw (kind_runtime _).2

/-- Devices are refused by how they are asked for, by the runtime or for want of GPUs. -/
theorem stays_devicesOf {Fault : Error → Prop} (h : P.Permits s Reads) {o : Options} (device : ∀ e, Fault (.device e))
    (runtime : ∀ e, Fault (.runtime e)) (gpu : Fault .gpuUnavailable) : Stays P Fault (devicesOf o) s := by
  refine (stays_ofExcept fun _ _ => device _).bind fun devices => ?_
  split
  · exact stays_pure
  · have asked : Stays P Fault hasGpu s := (stays_call h (.inl rfl) runtime).bind fun _ => stays_pure
    refine asked.bind fun offered => ?_
    split
    · exact stays_pure
    · exact stays_throw gpu

/-- A start is resolved by reading, and it never fails for want of time. -/
theorem stays_resolve (h : P.Permits s Reads) {o : Options} : Stays P (·.kind ≠ .timeout) (resolve o) s := by
  have source : Stays P NoTimeout (sourceOf o) s := by
    unfold sourceOf
    split
    · exact stays_pure
    · exact stays_throw nofun
  have image : Stays P NoTimeout (imageOf o) s := by
    unfold imageOf
    split
    · exact stays_pure
    · exact stays_throw nofun
  have graph (given : Option Graph) (image : String) : Stays P NoTimeout (graphOf given image) s := by
    unfold graphOf
    split
    · exact stays_pure
    · exact stays_recordedGraph h
  exact (stays_ofExcept fun _ _ => nofun).bind fun _ => source.bind fun (given, _) => image.bind fun _ =>
    (graph given _).bind fun _ => (stays_ofExcept fun _ _ => nofun).bind fun _ =>
      (stays_devicesOf h (fun _ => nofun) (fun e => (kind_runtime e).2) nofun).bind fun _ => stays_pure

/-- Inspections of an environment keep a condition, and one that shows it running leads to a ready state. -/
structure Watches (P : Protocol Runtime.interface σ) (name : String) (K Ready : σ → Prop) : Prop where
  allows : ∀ {s}, K s → P.allows s (.inspect name)
  keeps : ∀ {s r}, K s → K (P.next s (.inspect name) r)
  ready : ∀ {s c}, K s → c.isRunning → Ready (P.next s (.inspect name) (.ok c))

/-- What keeps a container that was created from running. -/
inductive Unready (name : String) : Error → Prop where
  | runtime (e : Runtime.Error) : Unready name (.runtime e)
  | taken (text : String) : Unready name (.portAllocated text)
  | cancelled : Unready name (.cancelled name)
  | overdue (timeout : Span) (lastState : String) : Unready name (.timeout name timeout lastState)

/-- It is never the request. -/
theorem Unready.kind_ne_invalid {name : String} {e : Error} (h : Unready name e) : e.kind ≠ .invalid := by
  cases h with
  | runtime e => exact (kind_runtime e).1
  | taken text => nofun
  | cancelled => nofun
  | overdue timeout lastState => nofun

/-- The wait for an environment fails by nothing else. -/
theorem Watches.keeps_watch {name : String} {K Ready : σ → Prop} (h : Watches P name K Ready)
    (p : Engine.Patience)
    (timeout : Span) : (watch p name timeout).Keeps P K Ready (Unready name) where
  probe {s} hs := by
    refine follows_bind.2 (follows_attempt.2 ⟨h.allows hs, fun r => ?_⟩)
    dsimp only
    split
    · exact ⟨h.keeps hs, h.ready hs⟩
    · exact ⟨h.keeps hs, nofun⟩
    · exact ⟨h.keeps hs, .runtime _⟩
  lastState {s} hs := by
    refine follows_bind.2 (follows_attempt.2 ⟨h.allows hs, fun r => ?_⟩)
    dsimp only
    split <;> exact h.keeps hs
  cancelled := .cancelled
  timeout := .overdue ..

/-- Bringing a container up asks for its start and then inspects it; it succeeds when an inspection shows it running. -/
theorem follows_bringUp {p : Engine.Patience} {o : Options} {K Ready : σ → Prop}
    (hw : Watches P o.name K Ready)
    (ha : P.allows s (.start o.name)) (hn : ∀ r, K (P.next s (.start o.name) r)) :
    Follows P (bringUp p o) s fun r t => K t ∧ match r with
      | .ok () => Ready t
      | .error e => Unready o.name e := by
  refine follows_bind.2 (follows_bind.2 (follows_attempt.2 ⟨ha, fun r => ?_⟩))
  dsimp only
  split
  · exact (hw.keeps_watch p o.timeout).await (hn _)
  · exact ⟨hn _, .taken _⟩
  · exact ⟨hn _, .runtime _⟩

/-- The states that a start leads a protocol through, part by part. -/
structure Carries (P : Protocol Runtime.interface σ) (o : Options) (checking clear created up : σ) : Prop where
  reads : P.Permits checking Reads
  clean : Follows P (clean o.name o.forced) checking fun r t => ∀ x, r = .ok x → t = clear
  create : ∀ spec : Container.Spec, spec.name = o.name →
    (o.sshPort ≠ 0 → Container.ReachedAt spec.bindings o.sshPort) →
      P.allows clear (.create spec) ∧ ∀ id, P.next clear (.create spec) (.ok id) = created
  bringUp : ∀ p, Follows P (bringUp p o) created fun r t => ∀ x, r = .ok x → t = up
  inspect : P.Permits up (· = .inspect o.name)

/-- A start keeps to a protocol that its parts keep to, and returns the port for SSH that was pinned. -/
theorem Carries.follows_start {o : Options} {checking clear created up : σ} (h : Carries P o checking clear created up)
    (p : Engine.Patience) : Follows P (start p o) checking fun r t =>
      ∀ s, r = .ok s → t = up ∧ (o.sshPort ≠ 0 → s.sshPort = o.sshPort) := by
  rw [start_eq]
  refine follows_bind.2 ((stays_resolve h.reads).mono ?_)
  rintro (e | a) _ ⟨rfl, _⟩
  · nofun
  refine follows_bind.2 (follows_pick (fun ssh hssh => ?_) fun _ => nofun)
  refine follows_bind.2 (h.clean.mono ?_)
  rintro (e | _) t ht
  · nofun
  obtain rfl := ht _ rfl
  refine follows_bind.2 (follows_layOut.mono ?_)
  rintro (e | ⟨mounts, plan⟩) _ ⟨rfl, hplan⟩
  · nofun
  obtain ⟨hallowed, hcreated⟩ := h.create (specOf o a.image a.graph a.devices ssh mounts plan) rfl
    fun h0 => hssh h0 ▸ hplan.reachedAt
  refine follows_bind.2 (follows_call.2 ⟨hallowed, fun r => ?_⟩)
  cases r with
  | error _ => nofun
  | ok id =>
    rw [hcreated id]
    refine follows_bind.2 ((h.bringUp p).mono ?_)
    rintro (e | _) t ht
    · nofun
    obtain rfl := ht _ rfl
    obtain ⟨hinspect, hsame⟩ := h.inspect _ rfl
    refine follows_bind.2 (follows_call.2 ⟨hinspect, fun r => ?_⟩)
    cases r with
    | error _ => nofun
    | ok c =>
      rintro _ ⟨⟩
      exact ⟨hsame (.ok c), hssh⟩

end Questions

end DevEnv.Local
