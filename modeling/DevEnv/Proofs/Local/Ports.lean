import DevEnv.Proofs.Local.Views
import DevEnv.Proofs.Plan.Booking

/-! Port bindings of an environment right after its start. They are listed under names from the graph recorded on
the image, while the start names its services by the graph that it uses. Where the name is another container's
identifier, those of that one may be listed. -/
namespace DevEnv.Local
open DevEnv.Action
open DevEnv.Runtime (Memory)
open DevEnv.Runtime.Memory (Entry Reachable Sound)

/-- The name that the binding of a container port is listed under. -/
def listedName (recorded : Option Graph) (q : UInt16) : String :=
  ((serviceNames recorded).get? q).getD ("port-" ++ Text.ofNat q.toNat)

/-- The names agree where the graph that is used is the recorded one and every exposure has a name of its own. -/
theorem listedName_of_serviceAt? {g : Graph} (hn : ∀ e ∈ g.exposures, e.service ≠ "") {q : UInt16}
    {service : String} (hs : Plan.serviceAt? g q = some service) : listedName (some g) q = service := by
  have hgiven : ((g.exposures.filter (·.service ≠ "")).map fun e => (e.containerPort, e.service)) =
      g.exposures.map fun e => (e.containerPort, Plan.exposureName e) := by
    rw [List.filter_eq_self.2 fun e he => by simpa using hn e he]
    exact List.map_congr_left fun e he => by rw [Plan.exposureName, if_neg (hn e he)]
  have hsub : (Plan.reserved g).Sublist
      [(sshPort, sshService), (jupyterPort, jupyterService), (rstudioPort, rstudioService)] := by
    unfold Plan.reserved
    cases g.jupyter.isSome <;> cases g.rstudio <;> decide
  have husual (hr : (Plan.reserved g).reverse.lookup q = some service) :
      [(sshPort, sshService), (jupyterPort, jupyterService), (rstudioPort, rstudioService)].reverse.lookup q =
        some service :=
    SortedMap.lookup_of_mem (by decide)
      (List.mem_reverse.2 (hsub.subset (List.mem_reverse.1 (SortedMap.mem_of_lookup hr))))
  rw [Plan.serviceAt?, Plan.declared, List.reverse_append, List.lookup_append] at hs
  rw [listedName, serviceNames, Option.elim_some, hgiven, SortedMap.get?_ofList, List.reverse_append,
    List.lookup_append]
  rcases Option.or_eq_some_iff.1 hs with hs | ⟨hnone, hs⟩
  · rw [hs]
    rfl
  · rw [hnone, husual hs]
    rfl

variable {τ : Type} {host : (q : Host.Query) → τ → q.Answer × τ} {h h' : τ} {m m' : Memory}
  {p : Engine.Patience} {o : Options} {s : Started}

/-- What is listed under a name of the container that it leads to. -/
def portsAs (name : String) (c : Container) : Except Error (List PortBinding) :=
  if Label.isOwned c.labels then
    ((Label.graph c.labels).map fun g => c.bindings.map (named (serviceNames g))).mapError .label
  else .error (.environmentNotFound name)

theorem ends_ports_of_find? {name : String} {k : Entry} (hf : m.find? name = some k) :
    Ends (beside host) (Local.ports name) (h, m) (portsAs name k.advance.container) (h, m.put k.advance) := by
  unfold portsAs
  rw [k.continues_advance.labels]
  split
  · next ho =>
    refine ends_bind.2 (.inl ⟨_, _, ends_ownContainer_of_find? hf ho, ?_⟩)
    rw [k.continues_advance.labels]
    have hgraph : Ends (beside host) (Action.ofExcept Error.label (Label.graph k.container.labels))
        (h, m.put k.advance) _ (h, m.put k.advance) := ends_ofExcept.2 ⟨rfl, rfl⟩
    have hends := hgraph.map fun g => k.advance.container.bindings.map (named (serviceNames g))
    cases hg : Label.graph k.container.labels <;> rw [hg] at hends <;> exact hends
  · next ho => exact ends_bind.2 (.inr ⟨_, ends_ownContainer_foreign hf ho, rfl⟩)

theorem Left.ends_ports {a : Resolved} {plan : Plan} {k x : Entry} (hm : Sound m') (hl : Left o m m' s a plan k x) :
    Ends (beside host) (Local.ports o.name) (h', m') (portsAs o.name x.container) (h', m') := by
  have hends : Ends (beside host) (Local.ports o.name) (h', m') _ (h', _) := ends_ports_of_find? hl.found
  rwa [(hl.advance_eq hm).2, (hl.advance_eq hm).1] at hends

theorem Left.portsAs_eq {a : Resolved} {plan : Plan} {k x : Entry} (hl : Left o m m' s a plan k x)
    {recorded : Option Graph} (hr : Label.graph (inherited m a.image) = .ok recorded) :
    portsAs o.name k.container = .ok (k.container.bindings.map (named (serviceNames recorded))) := by
  rw [portsAs, if_pos hl.isOwned, hl.labels, Label.graph_overlay hr]
  rfl

theorem Recorded.graph_inherited {image : String} {recorded : Option (Graph × String)}
    (hr : Recorded m image recorded) : Label.graph (inherited m image) = .ok (recorded.map (·.1)) := by
  rw [hr.inherited_eq]
  cases recorded with
  | none => rfl
  | some r => simp only [Option.elim_some, Label.graph_ofImage, Option.map_some]

/-- Services on different host ports are told apart by them. -/
private theorem name_unique {services : List ServicePort} (hn : (services.map (·.port)).Nodup) {x y : String}
    {port : UInt16} (hx : ⟨x, port⟩ ∈ services) (hy : ⟨y, port⟩ ∈ services) : x = y := by
  have hnodup : ((services.map fun s => (s.port, s.name)).map (·.1)).Nodup := by rwa [List.map_map]
  have hlookup {z : String} (hz : ⟨z, port⟩ ∈ services) :
      (services.map fun s => (s.port, s.name)).lookup port = some z :=
    SortedMap.lookup_of_mem hnodup (List.mem_map.2 ⟨_, hz, rfl⟩)
  exact Option.some.inj ((hlookup hx).symm.trans (hlookup hy))

/-- Bindings are listed under names by a recorded graph, while a start has named the services behind them by the
graph that it used. -/
structure Lists (s : Started) (used : Graph) (recorded : Option Graph) (bs : List PortBinding) : Prop where
  name : ∀ b ∈ bs, b.name = listedName recorded b.port
  service : ∀ b ∈ bs, ∃ service, Plan.serviceAt? used b.port = some service ∧ ⟨service, b.hostPort⟩ ∈ s.ports
  /-- As long as services have host ports of their own, all bindings are found under their names exactly if
  the names are those of the graph that was used. -/
  agree_iff : (s.ports.map (·.port)).Nodup → ((∀ b ∈ bs, ⟨b.name, b.hostPort⟩ ∈ s.ports) ↔
    ∀ b ∈ bs, Plan.serviceAt? used b.port = some b.name)
  /-- That is so for the recorded graph with a name for every exposure. -/
  agree : recorded = some used → (∀ e ∈ used.exposures, e.service ≠ "") →
    ∀ b ∈ bs, ⟨b.name, b.hostPort⟩ ∈ s.ports

private theorem lists_of_service {used : Graph} {recorded : Option Graph} {bs : List PortBinding}
    (hname : ∀ b ∈ bs, b.name = listedName recorded b.port)
    (hservice : ∀ b ∈ bs, ∃ service, Plan.serviceAt? used b.port = some service ∧ ⟨service, b.hostPort⟩ ∈ s.ports) :
    Lists s used recorded bs where
  name := hname
  service := hservice
  agree_iff hnodup := by
    constructor
    · intro hall b hmem
      obtain ⟨service, hs, hport⟩ := hservice b hmem
      rw [hs, name_unique hnodup hport (hall b hmem)]
    · intro hall b hmem
      obtain ⟨service, hs, hport⟩ := hservice b hmem
      obtain rfl : service = b.name := Option.some.inj (hs.symm.trans (hall b hmem))
      exact hport
  agree hsame hn b hmem := by
    obtain ⟨service, hs, hport⟩ := hservice b hmem
    rw [hname b hmem, hsame, listedName_of_serviceAt? hn hs]
    exact hport

/-- Right after a start the port bindings listed under the name are those of the container that it leads to. Those of
the environment are listed by the graph recorded on its image. -/
theorem ports_listed (hm : Reachable m) (hb : Built m)
    (he : Ends (beside host) (start p o) (h, m) (.ok s) (h', m')) :
    ∃ a recorded k x, Resolves m o a ∧ Recorded m a.image recorded ∧ m'.containers.get? o.name = some k ∧
      m'.find? o.name = some x ∧ (x = k ∨ Stray m o.name x) ∧
      Ends (beside host) (ports o.name) (h', m') (portsAs o.name x.container) (h', m') ∧
      (x = k → ∃ bs, portsAs o.name x.container = .ok bs ∧ Lists s a.graph (recorded.map (·.1)) bs) := by
  obtain ⟨a, plan, k, x, hl⟩ := ends_start_ok hm.sound he
  obtain ⟨recorded, hr⟩ := hb.exists_recorded a.image
  refine ⟨a, recorded, k, x, hl.resolved, hr, hl.filed, hl.found, hl.led, hl.ends_ports (reachable_of_ends hm he).sound,
    ?_⟩
  rintro rfl
  refine ⟨_, hl.portsAs_eq hr.graph_inherited, lists_of_service ?_ ?_⟩ <;>
    intro b hmem <;> obtain ⟨x, hx, rfl⟩ := List.mem_map.1 hmem
  · rfl
  · rw [hl.bindings] at hx
    obtain ⟨q, hq⟩ := SortedMap.mem_values.1 hx
    obtain ⟨service, hs, hport⟩ := hl.layout.named hq
    rw [← hl.layout.filed hq] at hs
    exact ⟨service, hs, hl.ports ▸ hport⟩

/-- A build graph with a service of no name on the port that notebooks usually have. -/
def unnamedGraph : Graph := { exposures := [⟨8888, 18888, "", none⟩] }

/-- A runtime with an image that was built from it. -/
def unnamedMemory : Memory :=
  ({} : Memory).addImage "mnist:dev" (Label.ofImage unnamedGraph "/work/mnist") default

theorem reachable_unnamedMemory : Reachable unnamedMemory := .step .empty (.addImage ..)

theorem built_unnamedMemory : Built unnamedMemory := built_empty.addImage

/-- A start of the image with the graph that it was built from. -/
def unnamed : Options :=
  { image := some "mnist:dev", name := "mnist", buildContext := "/work/mnist", sshPort := 10022,
    source := .docker (some unnamedGraph) [] }

/-- What the start tells. -/
def unnamedStarted : Started :=
  { sshPort := 10022, address := "172.17.0.2", name := "mnist", ports := [⟨"ssh", 10022⟩, ⟨"port-8888", 18888⟩] }

/-- The runtime after that start. -/
def unnamedMemory' : Memory := (((start ⟨⟨0⟩, 10⟩ unnamed).run.run (beside stillHost) ((), unnamedMemory)).2).2

theorem ends_unnamed : Ends (beside stillHost) (start ⟨⟨0⟩, 10⟩ unnamed) ((), unnamedMemory) (.ok unnamedStarted)
    ((), unnamedMemory') := rfl

theorem ports_listed_unnamed : ∃ a recorded k x, Resolves unnamedMemory unnamed a ∧
    Recorded unnamedMemory a.image recorded ∧ unnamedMemory'.containers.get? "mnist" = some k ∧
    unnamedMemory'.find? "mnist" = some x ∧ (x = k ∨ Stray unnamedMemory "mnist" x) ∧
    Ends (beside stillHost) (ports "mnist") ((), unnamedMemory') (portsAs "mnist" x.container) ((), unnamedMemory') ∧
    (x = k → ∃ bs, portsAs "mnist" x.container = .ok bs ∧
      Lists unnamedStarted a.graph (recorded.map (·.1)) bs) :=
  ports_listed reachable_unnamedMemory built_unnamedMemory ends_unnamed

/-- The start tells of a service without a name, and its port is listed as that of a notebook. -/
theorem ports_listed_otherwise : ∃ m, Reachable m ∧ Built m ∧ ∃ o s m' bs b,
    Ends (beside stillHost) (start ⟨⟨0⟩, 10⟩ o) ((), m) (.ok s) ((), m') ∧
    Ends (beside stillHost) (ports o.name) ((), m') (.ok bs) ((), m') ∧
    b ∈ bs ∧ ⟨b.name, b.hostPort⟩ ∉ s.ports := by
  obtain ⟨a, plan, k, x, hl⟩ := ends_start_ok reachable_unnamedMemory.sound ends_unnamed
  obtain rfl := hl.eq_of_no_id (reachable_unnamedMemory.sound.id_ne (by decide))
  have hrecorded : Recorded unnamedMemory a.image (some (unnamedGraph, "/work/mnist")) := by
    rw [hl.resolved.image_eq rfl]
    exact recorded_addImage
  have hbindings : x.container.bindings = [.tcp 2222 "127.0.0.1" 10022, .tcp 8888 "127.0.0.1" 18888] := by
    have hfiled : (unnamedMemory'.containers.get? "mnist").map (·.container.bindings) =
        some [.tcp 2222 "127.0.0.1" 10022, .tcp 8888 "127.0.0.1" 18888] := rfl
    rw [show unnamedMemory'.containers.get? "mnist" = some x from hl.filed] at hfiled
    exact Option.some.inj hfiled
  have hsound : Sound unnamedMemory' := (reachable_of_ends reachable_unnamedMemory ends_unnamed).sound
  have hlisted : Ends (beside stillHost) (ports unnamed.name) ((), unnamedMemory') (portsAs unnamed.name x.container)
      ((), unnamedMemory') := hl.ends_ports hsound
  rw [hl.portsAs_eq hrecorded.graph_inherited, hbindings] at hlisted
  exact ⟨unnamedMemory, reachable_unnamedMemory, built_unnamedMemory, unnamed, unnamedStarted, _, _, _,
    ends_unnamed, hlisted, List.mem_cons_of_mem _ List.mem_cons_self, by decide⟩

section Services

/-- A layout that a start makes is one of the services that its graph declares. -/
theorem exists_of_ends_make {g : Graph} {sshHost : String} {ssh : UInt16} {plan : Plan} {w w' : τ × Memory}
    (he : Ends (beside host) (Plan.make freePort g sshHost ssh) w (.ok plan) w') :
    ¬ Plan.Conflicts g ∧ ∃ ports : List UInt16, ports.length = (Plan.unpinned g).length ∧
      plan = Plan.layOut sshHost ssh (Plan.placements (Plan.demands g) ports) := by
  have hmake : Ends (beside host) (Plan.make freePort g sshHost ssh : ExceptT Error (Program _) Plan) w (.ok plan) w' :=
    he
  rw [Plan.make_eq] at hmake
  cases hc : Plan.checkReserved g with
  | error e =>
    rw [hc] at hmake
    cases (ends_throw.1 hmake).1
  | ok _ =>
    rw [hc] at hmake
    obtain ⟨ports, _, hports, h⟩ := ends_bind_ok.1 hmake
    cases (ends_pure.1 h).1
    exact ⟨Plan.checkReserved_eq_ok_iff.1 hc, ports, length_of_ends_mapM hports, rfl⟩

/-- Of the services that a start tells of those are bound in its container that no later exposure has overtaken. -/
theorem start_advertises (hm : Reachable m) (he : Ends (beside host) (start p o) (h, m) (.ok s) (h', m')) :
    ∃ a k ports, Resolves m o a ∧ m'.containers.get? o.name = some k ∧ ports.length = (Plan.unpinned a.graph).length ∧
      Plan.Advertises s.ports k.container.bindings a.graph s.sshPort
        (Plan.placements (Plan.demands a.graph) ports) := by
  cases ends_start hm.sound he with
  | @planned a ssh mounts plan h₁ h₂ m₁ _ _ ha _ _ _ hplan _ hup =>
    obtain ⟨k, _, hk, hfiled, _, _, _, rfl⟩ := hup.exists_filed rfl
    obtain ⟨hfree, ports, length, rfl⟩ := exists_of_ends_make hplan
    refine ⟨a, k, ports, ha, hfiled, length, ?_⟩
    rw [hk.bindings]
    exact Plan.advertises_layOut hfree (Plan.map_demand_placements length) o.sshHost ssh

end Services

end DevEnv.Local
