import DevEnv.Proofs.Label
import DevEnv.Proofs.Local.Sequence
import DevEnv.Proofs.Memory.History

/-! Views of an environment right after its start. They are read off the labels of its container, which are those
of its image with those of the start laid over them. Where the name is another container's identifier, that one may be
shown in its place. -/
namespace DevEnv.Local
open DevEnv.Action
open DevEnv.Runtime (Memory)
open DevEnv.Runtime.Memory (Entry Reachable Sound)

variable {τ α : Type} {host : (q : Host.Query) → τ → q.Answer × τ} {h h' : τ} {m m' : Memory}
  {p : Engine.Patience} {o : Options} {s : Started}

section History

/-- Whatever the host shows, a run is a history of calls for the runtime. -/
theorem exists_history (host : (q : Host.Query) → τ → q.Answer × τ)
    (p : Program (Host.interface.sum Runtime.interface) α) (h : τ) (m : Memory) :
    ∃ ops, (p.run (beside host) (h, m)).2.2 = Memory.after ops m := by
  induction p generalizing h m with
  | done a => exact ⟨[], rfl⟩
  | ask q next ih =>
    cases q with
    | inl q => exact ih _ _ m
    | inr c =>
      obtain ⟨ops, ho⟩ := ih _ h (Memory.answer c m).2
      exact ⟨.call c :: ops, ho⟩
  | unfinished => exact ⟨[], rfl⟩

theorem reachable_of_ends (hm : Reachable m) {act : Act α} {r : Except Error α}
    (he : Ends (beside host) act (h, m) r (h', m')) : Reachable m' := by
  obtain ⟨ops, ho⟩ := exists_history host act.run h m
  rw [show act.run.run (beside host) (h, m) = (some r, h', m') from he] at ho
  rw [show m' = Memory.after ops m from ho]
  exact hm.after ops

end History

/-- The labels that a container takes over from the image of a reference. -/
def inherited (m : Memory) (image : String) : Labels := (m.images.get? image).elim ∅ (·.labels)

/-- What a start tells about its environment in the labels of the container. -/
def factsOf (o : Options) (s : Started) (a : Resolved) (plan : Plan) : Label.Facts :=
  .ofStart o.name a.graph (!a.devices.isEmpty) s.sshPort plan.jupyter plan.rstudio

/-- The container that a successful start leaves behind, and the one that its name then leads to: the same one, unless
a stray one is come upon first. -/
structure Left (o : Options) (m m' : Memory) (s : Started) (a : Resolved) (plan : Plan) (k x : Entry) : Prop where
  resolved : Resolves m o a
  layout : plan.LaysOut a.graph o.sshHost s.sshPort
  filed : m'.containers.get? o.name = some k
  name : k.container.name = o.name
  image : k.container.image = a.image
  labels : k.container.labels = (inherited m a.image).overlay (factsOf o s a plan).encode
  bindings : k.container.bindings = plan.bindings.values
  devices : k.spec.devices = a.devices
  called : s.name = o.name
  ports : s.ports = plan.services
  found : m'.find? o.name = some x
  led : x = k ∨ Stray m o.name x
  running : x.container.status = .running

theorem Resolves.image_eq {a : Resolved} (ha : Resolves m o a) {image : String} (ho : o.image = some image) :
    a.image = image :=
  Option.some.inj (ha.image.symm.trans ho)

theorem ends_start_ok (hm : Sound m) (he : Ends (beside host) (start p o) (h, m) (.ok s) (h', m')) :
    ∃ a plan k x, Left o m m' s a plan k x := by
  cases ends_start hm he with
  | @planned a ssh mounts plan h₁ h₂ m₁ _ _ ha _ hc _ hplan _ hup =>
    obtain ⟨k, x, hk, hfiled, hfound, hled, hrunning, rfl⟩ := hup.exists_filed rfl
    obtain ⟨-, -, hlayout⟩ := ends_hostOnly follows_make hplan
    refine ⟨a, plan, k, x, ha, hlayout, hfiled, hk.name, hk.image, ?_, hk.bindings,
      congrArg Container.Spec.devices hk.spec, rfl, rfl, hfound, hled.imp_right hc.stray, hrunning⟩
    rw [inherited, ← hc.images_eq]
    exact hk.labels

/-- A container port is reached from a host port and from no other one. -/
def BoundTo (bindings : List Container.Binding) (containerPort hostPort : UInt16) : Prop :=
  (∃ b ∈ bindings, b.containerPort = containerPort) ∧
    ∀ b ∈ bindings, b.containerPort = containerPort → b.hostPort = hostPort

/-- An address is shown exactly if the service is declared. It is that of the host port which is bound to the
service's port in the container and which the start lists under the service. -/
def ShowsService (k : Entry) (s : Started) (declared : Bool) (service : String) (containerPort : UInt16)
    (address : Option String) : Prop :=
  (address.isSome ↔ declared) ∧ ∀ text, address = some text → ∃ hostPort, text = Label.serviceAddress hostPort ∧
    BoundTo k.container.bindings containerPort hostPort ∧ ⟨service, hostPort⟩ ∈ s.ports

section Shown
variable {name : String} {k : Entry}

/-- A container with this library's mark is shown after one more inspection. -/
theorem ends_ownContainer_of_find? (hf : m.find? name = some k) (ho : Label.isOwned k.container.labels = true) :
    Ends (beside host) (ownContainer name) (h, m) (.ok k.advance.container) (h, m.put k.advance) := by
  have howned : Label.isOwned k.advance.container.labels = true := by
    rw [k.continues_advance.labels]
    exact ho
  refine ends_inspect_found hf ?_
  dsimp only
  rw [if_pos howned]
  exact ends_pure.2 ⟨rfl, rfl⟩

/-- A container without it is none of an environment. -/
theorem ends_ownContainer_foreign (hf : m.find? name = some k) (ho : ¬ Label.isOwned k.container.labels = true) :
    Ends (beside host) (ownContainer name) (h, m) (.error (.environmentNotFound name)) (h, m.put k.advance) := by
  have hforeign : ¬ Label.isOwned k.advance.container.labels = true := by
    rw [k.continues_advance.labels]
    exact ho
  refine ends_inspect_found hf ?_
  dsimp only
  rw [if_neg hforeign]
  exact ends_throw.2 ⟨rfl, rfl⟩

/-- What is shown under a name of the container that it leads to. -/
def shownAs (name : String) (c : Container) : Except Error Environment :=
  if Label.isOwned c.labels then (Environment.ofContainer c).mapError .label else .error (.environmentNotFound name)

theorem ends_environment_of_find? (hf : m.find? name = some k) :
    Ends (beside host) (environment name) (h, m) (shownAs name k.advance.container) (h, m.put k.advance) := by
  unfold shownAs
  rw [k.continues_advance.labels]
  split
  · next ho => exact ends_bind.2 (.inl ⟨_, _, ends_ownContainer_of_find? hf ho, ends_ofExcept.2 ⟨rfl, rfl⟩⟩)
  · next ho => exact ends_bind.2 (.inr ⟨_, ends_ownContainer_foreign hf ho, rfl⟩)

end Shown

namespace Left
variable {a : Resolved} {plan : Plan} {k x : Entry}

/-- Looking at the container that the name leads to changes nothing any more. -/
theorem advance_eq (hm : Sound m') (hl : Left o m m' s a plan k x) : x.advance = x ∧ m'.put x.advance = m' := by
  have hstill : x.advance = x := Entry.advance_of_ne_created (by simp [hl.running])
  exact ⟨hstill, by rw [hstill, Memory.put_of_get? (hm.get?_of_find? hl.found)]⟩

theorem ends_environment (hm : Sound m') (hl : Left o m m' s a plan k x) :
    Ends (beside host) (environment o.name) (h', m') (shownAs o.name x.container) (h', m') := by
  have hends : Ends (beside host) (environment o.name) (h', m') _ (h', _) := ends_environment_of_find? hl.found
  rwa [(hl.advance_eq hm).2, (hl.advance_eq hm).1] at hends

/-- A name that was no container's identifier leads to the container of the start. -/
theorem eq_of_no_id (hl : Left o m m' s a plan k x)
    (hid : ∀ n y, m.containers.get? n = some y → y.container.id.text ≠ o.name) : x = k := by
  refine hl.led.resolve_right fun hstray => ?_
  obtain ⟨n, y, hy, hyid⟩ := hstray.exists_id
  exact hid n y hy hyid

theorem isOwned (hl : Left o m m' s a plan k x) : Label.isOwned k.container.labels = true := by
  rw [hl.labels]
  exact Label.isOwned_overlay

/-- The environment is shown with the facts of its start and with what was recorded on its image. -/
theorem shownAs_eq (hl : Left o m m' s a plan k k) {recorded : Manifest}
    (hr : Label.manifest (inherited m a.image) = .ok recorded) : shownAs o.name k.container = .ok
      { name := o.name
        image := a.image
        status := .running
        sshPort := s.sshPort
        jupyter := (factsOf o s a plan).jupyter.or ((inherited m a.image).get? Label.jupyterKey)
        rstudio := (factsOf o s a plan).rstudio.or ((inherited m a.image).get? Label.rstudioKey)
        manifest := { recorded with gpu := !a.devices.isEmpty || recorded.gpu } } := by
  rw [shownAs, if_pos hl.isOwned, Environment.ofContainer, hl.labels, Label.Facts.decode_overlay,
    Label.manifest_overlay hr, hl.name, hl.image, hl.running]
  rfl

/-- A service with an address of its own shows the host port that leads to it, if it is declared. -/
theorem showsService (hl : Left o m m' s a plan k x) {containerPort : UInt16} {service : String} {declared : Bool}
    {granted : Option UInt16} (hg : Plan.Grants plan.bindings containerPort declared granted)
    (hq : declared → (containerPort, service) ∈ Plan.reserved a.graph) :
    ShowsService k s declared service containerPort
      (if declared then granted.map Label.serviceAddress else none) := by
  cases declared with
  | false => exact ⟨by simp, nofun⟩
  | true =>
    obtain ⟨port, rfl⟩ := Option.isSome_iff_exists.1 hg.isSome
    obtain ⟨b, hb, rfl⟩ := hg.bound port rfl
    refine ⟨by simp, ?_⟩
    rintro _ ⟨⟩
    refine ⟨b.hostPort, rfl, ⟨⟨b, ?_, hl.layout.filed hb⟩, fun b' hb' hp => ?_⟩, ?_⟩
    · rw [hl.bindings]
      exact SortedMap.mem_values.2 ⟨_, hb⟩
    · rw [hl.bindings] at hb'
      obtain ⟨q, hq'⟩ := SortedMap.mem_values.1 hb'
      obtain rfl : q = containerPort := (hl.layout.filed hq').symm.trans hp
      rw [Option.some.inj (hq'.symm.trans hb)]
    · obtain ⟨name, hname, hmem⟩ := hl.layout.named hb
      rw [hl.ports]
      have hservice : some name = some service :=
        hname.symm.trans (Plan.serviceAt?_reserved hl.layout.accepted (hq rfl))
      exact Option.some.inj hservice ▸ hmem

end Left

/-- Every image was built by this library: its labels are those of some graph and build context. -/
def Built (m : Memory) : Prop :=
  ∀ reference i, m.images.get? reference = some i → ∃ g context, i.labels = Label.ofImage g context

theorem built_empty : Built {} := nofun

theorem Built.addImage (hb : Built m) {reference : String} {g : Graph} {context : String} {created : Timestamp} :
    Built (m.addImage reference (Label.ofImage g context) created) := by
  intro reference' i hi
  rw [Memory.addImage, SortedMap.get?_insert] at hi
  split at hi
  · cases hi
    dsimp only
    exact ⟨g, context, rfl⟩
  · exact hb reference' i hi

/-- What is recorded on the image of a reference: a graph and a build context, or nothing if there is no image. -/
def Recorded (m : Memory) (image : String) : Option (Graph × String) → Prop
  | none => m.images.get? image = none
  | some (g, context) => ∃ i, m.images.get? image = some i ∧ i.labels = Label.ofImage g context

theorem Built.exists_recorded (hb : Built m) (image : String) : ∃ recorded, Recorded m image recorded := by
  cases hi : m.images.get? image with
  | none => exact ⟨none, hi⟩
  | some i =>
    obtain ⟨g, context, hl⟩ := hb image i hi
    exact ⟨some (g, context), i, hi, hl⟩

theorem recorded_addImage {reference : String} {g : Graph} {context : String} {created : Timestamp} :
    Recorded (m.addImage reference (Label.ofImage g context) created) reference (some (g, context)) := by
  refine ⟨_, SortedMap.get?_insert_self .., ?_⟩
  dsimp only

theorem Recorded.inherited_eq {image : String} {recorded : Option (Graph × String)} (hr : Recorded m image recorded) :
    inherited m image = recorded.elim ∅ fun r => Label.ofImage r.1 r.2 := by
  cases recorded with
  | none => rw [inherited, show m.images.get? image = none from hr]; rfl
  | some r =>
    obtain ⟨i, hi, hl⟩ := hr
    rw [inherited, hi, Option.elim_some, Option.elim_some, hl]

section Gpu

/-- Right after a start what is shown under the name is the container that it leads to. An environment is shown with
GPUs if its container has a device request, or if it does not but the graph recorded on its image asks for GPUs. -/
theorem gpu_shown_iff (hm : Reachable m) (hb : Built m)
    (he : Ends (beside host) (start p o) (h, m) (.ok s) (h', m')) :
    ∃ a recorded k x, Resolves m o a ∧ Recorded m a.image recorded ∧ m'.containers.get? o.name = some k ∧
      m'.find? o.name = some x ∧ (x = k ∨ Stray m o.name x) ∧
      Ends (beside host) (environment o.name) (h', m') (shownAs o.name x.container) (h', m') ∧
      (x = k → ∃ e, shownAs o.name x.container = .ok e ∧ (e.manifest.gpu = true ↔
        k.spec.devices ≠ [] ∨ ∃ g context, recorded = some (g, context) ∧ g.wantsGpu = true)) := by
  obtain ⟨a, plan, k, x, hl⟩ := ends_start_ok hm.sound he
  obtain ⟨recorded, hr⟩ := hb.exists_recorded a.image
  have hmanifest : Label.manifest (inherited m a.image) = .ok (recorded.elim
      { gpu := false, cuda := none, cudnn := none, buildContext := none, dependency := {} }
      fun r => Label.manifestOf r.1 r.2) := by
    rw [hr.inherited_eq]
    cases recorded with
    | none => rfl
    | some r => simp only [Option.elim_some, Label.manifest_ofImage]
  refine ⟨a, recorded, k, x, hl.resolved, hr, hl.filed, hl.found, hl.led,
    hl.ends_environment (reachable_of_ends hm he).sound, ?_⟩
  rintro rfl
  refine ⟨_, hl.shownAs_eq hmanifest, ?_⟩
  rw [hl.devices]
  rcases recorded with _ | ⟨g, context⟩ <;> cases a.devices <;> simp [Label.manifestOf]

/-- The build graph of an environment for GPUs. -/
def cudaGraph : Graph := { cuda := some "11.8" }

/-- A runtime with its image. -/
def cudaMemory : Memory := ({} : Memory).addImage "mnist:dev" (Label.ofImage cudaGraph "/work/mnist") default

theorem reachable_cudaMemory : Reachable cudaMemory := .step .empty (.addImage ..)

theorem built_cudaMemory : Built cudaMemory := built_empty.addImage

/-- A start that asks for no GPUs. -/
def withoutGpu : Options :=
  { image := some "mnist:dev", name := "mnist", buildContext := "/work/mnist", sshPort := 10022,
    source := .docker (some cudaGraph) [] }

/-- The runtime after that start. -/
def withoutGpuMemory : Memory := (((start ⟨⟨0⟩, 10⟩ withoutGpu).run.run (beside stillHost) ((), cudaMemory)).2).2

theorem ends_withoutGpu : Ends (beside stillHost) (start ⟨⟨0⟩, 10⟩ withoutGpu) ((), cudaMemory)
    (.ok { sshPort := 10022, address := "172.17.0.2", name := "mnist", ports := [⟨"ssh", 10022⟩] })
    ((), withoutGpuMemory) := rfl

theorem gpu_shown_iff_withoutGpu : ∃ a recorded k x, Resolves cudaMemory withoutGpu a ∧
    Recorded cudaMemory a.image recorded ∧ withoutGpuMemory.containers.get? "mnist" = some k ∧
    withoutGpuMemory.find? "mnist" = some x ∧ (x = k ∨ Stray cudaMemory "mnist" x) ∧
    Ends (beside stillHost) (environment "mnist") ((), withoutGpuMemory) (shownAs "mnist" x.container)
      ((), withoutGpuMemory) ∧
    (x = k → ∃ e, shownAs "mnist" x.container = .ok e ∧ (e.manifest.gpu = true ↔
      k.spec.devices ≠ [] ∨ ∃ g context, recorded = some (g, context) ∧ g.wantsGpu = true)) :=
  gpu_shown_iff reachable_cudaMemory built_cudaMemory ends_withoutGpu

/-- The environment is shown with GPUs, and its container has none. -/
theorem gpu_shown_without_devices : ∃ m, Reachable m ∧ Built m ∧ ∃ o s m' k e,
    Ends (beside stillHost) (start ⟨⟨0⟩, 10⟩ o) ((), m) (.ok s) ((), m') ∧
    m'.containers.get? o.name = some k ∧
    Ends (beside stillHost) (environment o.name) ((), m') (.ok e) ((), m') ∧
    e.manifest.gpu = true ∧ k.spec.devices = [] := by
  obtain ⟨a, plan, k, x, hl⟩ := ends_start_ok reachable_cudaMemory.sound ends_withoutGpu
  obtain rfl := hl.eq_of_no_id (reachable_cudaMemory.sound.id_ne (by decide))
  have hdevices : Except.ok [] = Except.ok a.devices := hl.resolved.devices
  have hrecorded : Recorded cudaMemory a.image (some (cudaGraph, "/work/mnist")) := by
    rw [hl.resolved.image_eq rfl]
    exact recorded_addImage
  have hmanifest : Label.manifest (inherited cudaMemory a.image) =
      .ok (Label.manifestOf cudaGraph "/work/mnist") := by
    rw [hrecorded.inherited_eq, Option.elim_some, Label.manifest_ofImage]
  have hsound : Sound withoutGpuMemory := (reachable_of_ends reachable_cudaMemory ends_withoutGpu).sound
  have hshown : Ends (beside stillHost) (environment withoutGpu.name) ((), withoutGpuMemory)
      (shownAs withoutGpu.name x.container) ((), withoutGpuMemory) := hl.ends_environment hsound
  rw [hl.shownAs_eq hmanifest] at hshown
  refine ⟨cudaMemory, reachable_cudaMemory, built_cudaMemory, withoutGpu, _, _, x, _, ends_withoutGpu, hl.filed, hshown,
    ?_, hl.devices.trans (Except.ok.inj hdevices).symm⟩
  simp [Label.manifestOf, cudaGraph, Graph.wantsGpu]

end Gpu

section Start

/-- An environment is shown as it was started, and as its image was built from a graph in a context. -/
structure ShowsStart (k : Entry) (s : Started) (image : String) (used g : Graph) (context : String)
    (e : Environment) : Prop where
  name : e.name = s.name
  image : e.image = image
  status : e.status = .running
  sshPort : e.sshPort = s.sshPort
  jupyter : ShowsService k s used.jupyter.isSome jupyterService jupyterPort e.jupyter
  rstudio : ShowsService k s used.rstudio rstudioService rstudioPort e.rstudio
  cuda : e.manifest.cuda = g.cuda
  cudnn : e.manifest.cudnn = g.cudnn
  buildContext : e.manifest.buildContext = some context
  dependency : e.manifest.dependency =
    { apt := g.aptPackages, pypi := Label.packageTokens g.pypiCommands, r := g.rPackages }

/-- Without a graph of its own a start takes the one that its image was built from. -/
theorem Resolves.graph_eq {a : Resolved} (ha : Resolves m o a) {i : StoredImage} {g : Graph} {context : String}
    (hi : m.images.get? a.image = some i) (hg : i.labels = Label.ofImage g context) :
    ∃ given, o.source = .docker given a.mountOptions ∧ a.graph = given.getD g := by
  obtain ⟨given, hs, hgraph⟩ := ha.source
  refine ⟨given, hs, ?_⟩
  cases given with
  | some g' => exact hgraph
  | none =>
    obtain ⟨i', hinspect, recorded, hrecorded, hgraph⟩ := hgraph
    rw [Memory.inspectImage, hi] at hinspect
    cases hinspect
    rw [hg, Label.graph_ofImage] at hrecorded
    cases hrecorded
    exact hgraph

/-- A start of an image that this library built is read back from the labels of the container. -/
theorem environment_shows_start (hm : Reachable m)
    (hid : ∀ n x, m.containers.get? n = some x → x.container.id.text ≠ o.name) {image : String} {i : StoredImage}
    {g : Graph} {context : String} (ho : o.image = some image) (hi : m.images.get? image = some i)
    (hg : i.labels = Label.ofImage g context)
    (he : Ends (beside host) (start p o) (h, m) (.ok s) (h', m')) :
    ∃ given mountOptions k e, o.source = .docker given mountOptions ∧ m'.containers.get? o.name = some k ∧
      Ends (beside host) (environment o.name) (h', m') (.ok e) (h', m') ∧
      ShowsStart k s image (given.getD g) g context e := by
  obtain ⟨a, plan, k, x, hl⟩ := ends_start_ok hm.sound he
  obtain rfl := hl.eq_of_no_id hid
  obtain rfl := hl.resolved.image_eq ho
  obtain ⟨given, hs, hused⟩ := hl.resolved.graph_eq hi hg
  have hinherited : inherited m a.image = Label.ofImage g context := by
    rw [inherited, hi]
    exact hg
  have hmanifest : Label.manifest (inherited m a.image) = .ok (Label.manifestOf g context) := by
    rw [hinherited]
    exact Label.manifest_ofImage
  have noJupyter : (inherited m a.image).get? Label.jupyterKey = none := by
    rw [hinherited]
    exact Label.get?_ofImage ..
  have noRstudio : (inherited m a.image).get? Label.rstudioKey = none := by
    rw [hinherited]
    exact Label.get?_ofImage ..
  have henvironment : Ends (beside host) (environment o.name) (h', m') _ (h', m') :=
    hl.ends_environment (reachable_of_ends hm he).sound
  rw [hl.shownAs_eq hmanifest, noJupyter, noRstudio, Option.or_none, Option.or_none] at henvironment
  refine ⟨given, a.mountOptions, _, _, hs, hl.filed, henvironment, ?_⟩
  rw [← hused]
  exact
    { name := hl.called.symm
      image := rfl
      status := rfl
      sshPort := rfl
      jupyter := hl.showsService hl.layout.jupyter fun hj => by simp [Plan.reserved, hj]
      rstudio := hl.showsService hl.layout.rstudio fun hr => by simp [Plan.reserved, hr]
      cuda := rfl
      cudnn := rfl
      buildContext := rfl
      dependency := rfl }

/-- The build graph of an image with packages. -/
def torchGraph : Graph :=
  { cuda := some "11.8", aptPackages := ["curl"], pypiCommands := ["--index-url", "https://pypi.org/simple", "torch"] }

/-- A runtime with that image. -/
def torchMemory : Memory := ({} : Memory).addImage "torch:dev" (Label.ofImage torchGraph "/work/torch") default

/-- A start with a notebook. -/
def notebook : Options :=
  { image := some "torch:dev", name := "mnist", buildContext := "/home/me/mnist", sshPort := 10022
    source := .docker (some { jupyter := some {} }) [] }

/-- The runtime after that start. -/
def notebookMemory : Memory := (((start ⟨⟨0⟩, 10⟩ notebook).run.run (beside stillHost) ((), torchMemory)).2).2

theorem ends_notebook : Ends (beside stillHost) (start ⟨⟨0⟩, 10⟩ notebook) ((), torchMemory)
    (.ok { sshPort := 10022, address := "172.17.0.2", name := "mnist"
           ports := [⟨"ssh", 10022⟩, ⟨"jupyter", 40001⟩] }) ((), notebookMemory) := rfl

theorem environment_shows_start_notebook : ∃ given mountOptions k e,
    notebook.source = .docker given mountOptions ∧ notebookMemory.containers.get? "mnist" = some k ∧
    Ends (beside stillHost) (environment "mnist") ((), notebookMemory) (.ok e) ((), notebookMemory) ∧
    ShowsStart k
      { sshPort := 10022, address := "172.17.0.2", name := "mnist", ports := [⟨"ssh", 10022⟩, ⟨"jupyter", 40001⟩] }
      "torch:dev" (given.getD torchGraph) torchGraph "/work/torch" e := by
  have hm : Reachable torchMemory := .step .empty (.addImage ..)
  obtain ⟨i, hi, hg⟩ : Recorded torchMemory "torch:dev" (some (torchGraph, "/work/torch")) := recorded_addImage
  exact environment_shows_start hm (hm.sound.id_ne (by decide)) rfl hi hg ends_notebook

end Start

end DevEnv.Local
