import DevEnv.Proofs.Plan.Outcome
import Mathlib.Data.List.Nodup
import Mathlib.Data.List.Pairwise

/-! What a layout makes of the ports of its host. An exposure that a later one overtakes stays among the services
that are told of, although nothing is bound for it; and only container ports are kept apart, so two services that
ask for one host port are both bound to it. -/
namespace DevEnv.Plan

variable {answers : Nat → Except String UInt16} {g : Graph} {host : String} {ssh : UInt16} {p : Plan} {n : Nat}

/-- Among all services the last on its container port, which takes the binding. -/
def Prevails (g : Graph) (d : Demand) : Prop :=
  (demands g).reverse.find? (·.containerPort = d.containerPort) = some d

/-- A service prevails exactly if its placement lasts. -/
theorem prevails_iff {xs : List Placement} (hxs : xs.map (·.demand) = demands g) {d : Demand} :
    Prevails g d ↔ ∃ x, Lasts xs x ∧ x.demand = d := by
  have hfind : (demands g).reverse.find? (·.containerPort = d.containerPort) =
      (lastAt xs d.containerPort).map (·.demand) := by
    rw [← hxs, ← List.map_reverse, List.find?_map]
    rfl
  rw [Prevails, hfind, Option.map_eq_some_iff]
  refine exists_congr fun x => ⟨?_, ?_⟩
  · rintro ⟨hx, rfl⟩
    exact ⟨hx, rfl⟩
  · rintro ⟨hx, rfl⟩
    exact ⟨hx, rfl⟩

section Advertising

/-- Every service that is told of has its host port bound. -/
def Advertised (services : List ServicePort) (bindings : List Container.Binding) : Prop :=
  ∀ s ∈ services, ∃ b ∈ bindings, b.hostPort = s.port

/-- How the services that are told of relate to the bindings, when they were placed one after the other. -/
structure Advertises (services : List ServicePort) (bindings : List Container.Binding) (g : Graph) (ssh : UInt16)
    (xs : List Placement) : Prop where
  told : services = ⟨sshService, ssh⟩ :: xs.map Placement.service
  /-- Nothing is bound to a host port but SSH and the services that no later one overtakes. -/
  bound_iff : ∀ port, (∃ b ∈ bindings, b.hostPort = port) ↔ port = ssh ∨ ∃ y, Lasts xs y ∧ y.hostPort = port
  /-- An overtaken service is told of in vain unless another one is bound to its host port by chance. -/
  advertised_iff : Advertised services bindings ↔
    ∀ x ∈ xs, ¬ Lasts xs x → x.hostPort = ssh ∨ ∃ y, Lasts xs y ∧ y.hostPort = x.hostPort
  /-- That does not happen if no container port is exposed twice. -/
  advertised : (g.exposures.map (·.containerPort)).Nodup → Advertised services bindings

/-- Without a conflict the container ports of a graph's services differ if those of its exposures do. -/
theorem nodup_containerPort_demands (hc : ¬ Conflicts g) (hn : (g.exposures.map (·.containerPort)).Nodup) :
    ((demands g).map Demand.containerPort).Nodup := by
  have hexposures : ((g.exposures.map Demand.exposure).map Demand.containerPort).Nodup := by
    rw [List.map_map]
    exact hn
  have hothers : ((g.jupyter.toList.map Demand.jupyter ++ if g.rstudio then [Demand.rstudio] else []).map
      Demand.containerPort).Nodup := by
    cases g.jupyter <;> cases g.rstudio <;> simp [Demand.containerPort, jupyterPort, rstudioPort]
  rw [demands, List.map_append, List.nodup_append]
  refine ⟨hothers, hexposures, ?_⟩
  -- the port of a service that comes first is reserved
  intro q hq q' hq' heq
  obtain ⟨d, hd, rfl⟩ := List.mem_map.1 hq
  obtain ⟨_, hd', rfl⟩ := List.mem_map.1 hq'
  obtain ⟨e, he, rfl⟩ := List.mem_map.1 hd'
  refine not_reserved_of_exposure hc (mem_demands.2 (.inr (.inr ⟨e, he, rfl⟩))) ?_
  rw [show e.containerPort = d.containerPort from heq.symm]
  rcases List.mem_append.1 hd with hd | hd
  · obtain ⟨j, hj, rfl⟩ := List.mem_map.1 hd
    exact .inr (.inl ⟨rfl, by rw [Option.mem_toList.1 hj]; rfl⟩)
  · split at hd
    · next hr =>
      rw [List.mem_singleton.1 hd]
      exact .inr (.inr ⟨rfl, hr⟩)
    · cases hd

theorem lasts_of_nodup {xs : List Placement} (hn : (xs.map Placement.containerPort).Nodup) {x : Placement}
    (hx : x ∈ xs) : Lasts xs x := by
  obtain ⟨y, hy, hyx⟩ := exists_lasts hx
  rwa [← List.inj_on_of_nodup_map hn hy.mem hx hyx]

theorem advertises_layOut {xs : List Placement} (hc : ¬ Conflicts g) (hxs : xs.map (·.demand) = demands g)
    (host : String) (ssh : UInt16) :
    Advertises (layOut host ssh xs).services (layOut host ssh xs).bindings.values g ssh xs := by
  have hs : ∀ x ∈ xs, x.containerPort ≠ sshPort := containerPort_ne_ssh_of_mem hc hxs
  have hbound (port : UInt16) : (∃ b ∈ (layOut host ssh xs).bindings.values, b.hostPort = port) ↔
      port = ssh ∨ ∃ y, Lasts xs y ∧ y.hostPort = port := by
    constructor
    · rintro ⟨b, hb, rfl⟩
      rcases (mem_bindings_iff hs).1 hb with rfl | ⟨y, hy, rfl⟩
      · exact .inl rfl
      · exact .inr ⟨y, hy, rfl⟩
    · rintro (rfl | ⟨y, hy, rfl⟩)
      · exact ⟨_, (mem_bindings_iff hs).2 (.inl rfl), rfl⟩
      · exact ⟨_, hy.binding_mem hs, rfl⟩
  have hadvertised : Advertised (layOut host ssh xs).services (layOut host ssh xs).bindings.values ↔
      ∀ x ∈ xs, ¬ Lasts xs x → x.hostPort = ssh ∨ ∃ y, Lasts xs y ∧ y.hostPort = x.hostPort := by
    rw [services_layOut, Advertised, List.forall_mem_cons, List.forall_mem_map]
    simp only [hbound]
    constructor
    · exact fun h x hx _ => h.2 x hx
    · refine fun h => ⟨.inl trivial, fun x hx => ?_⟩
      by_cases hlast : Lasts xs x
      · exact .inr ⟨x, hlast, rfl⟩
      · exact h x hx hlast
  refine ⟨services_layOut .., hbound, hadvertised, fun hn => hadvertised.2 fun x hx hlast => ?_⟩
  have hports : (xs.map Placement.containerPort).Nodup := by
    rw [show xs.map Placement.containerPort = (xs.map (·.demand)).map Demand.containerPort from
      List.map_map.symm, hxs]
    exact nodup_containerPort_demands hc hn
  exact absurd (lasts_of_nodup hports hx) hlast

/-- What a layout tells of is bound, exposures apart that a later one of their container port has overtaken. -/
theorem layout_advertises (h : makeInTurn answers g host ssh = (.ok p, n)) :
    ∃ ports : List UInt16, ports.length = (unpinned g).length ∧
      (∀ i (hi : i < ports.length), answers i = .ok ports[i]) ∧
      Advertises p.services p.bindings.values g ssh (placements (demands g) ports) := by
  obtain ⟨hfree, ports, length, -, given, rfl⟩ := exists_of_makeInTurn h
  exact ⟨ports, length, given, advertises_layOut hfree (map_demand_placements length) host ssh⟩

/-- A graph that exposes a container port on any host port and then on a certain one. -/
def overtaking : Graph := { exposures := [⟨8000, 0, "api", none⟩, ⟨8000, 9000, "api-pinned", none⟩] }

/-- A host with one free port after the other. -/
def counting (first : UInt16) : Nat → Except String UInt16 := fun i => .ok (first + i.toUInt16)

theorem layout_advertises_overtaking : ∃ p ports,
    makeInTurn (counting 10001) overtaking Label.localhost 10022 = (.ok p, 1) ∧ ports = [10001] ∧
    Advertises p.services p.bindings.values overtaking 10022 (placements (demands overtaking) ports) := by
  have hmake : makeInTurn (counting 10001) overtaking Label.localhost 10022 = (.ok _, 1) := rfl
  obtain ⟨ports, length, given, h⟩ := layout_advertises hmake
  match ports, length with
  | [port], _ =>
    obtain rfl : 10001 = port := Except.ok.inj (given 0 Nat.one_pos)
    exact ⟨_, _, rfl, rfl, h⟩

/-- The layout tells of the first exposure on a host port that nothing is bound to. -/
theorem overtaken_not_bound : ∃ p, makeInTurn (counting 10001) overtaking Label.localhost 10022 = (.ok p, 1) ∧
    ⟨"api", 10001⟩ ∈ p.services ∧ ∀ b ∈ p.bindings.values, b.hostPort ≠ 10001 :=
  ⟨_, rfl, by decide, by decide⟩

end Advertising

section Booking

/-- Two bindings take one port of one address of the host. -/
def SameSocket (b b' : Container.Binding) : Prop := b.hostIp = b'.hostIp ∧ b.hostPort = b'.hostPort

/-- The ports that a host gives on a number of questions differ from each other, from that of SSH and from those
that a graph asks for. -/
structure Fresh (answers : Nat → Except String UInt16) (n : Nat) (g : Graph) (ssh : UInt16) : Prop where
  apart : ∀ i < n, ∀ j < n, ∀ port, answers i = .ok port → answers j = .ok port → i = j
  ssh : ∀ i < n, answers i ≠ .ok ssh
  pinned : ∀ i < n, ∀ d ∈ demands g, d.pinned ≠ 0 → answers i ≠ .ok d.pinned

/-- The services of a graph that get the bindings they ask for ask for other sockets than SSH and each other. -/
structure PinsApart (g : Graph) (host : String) (ssh : UInt16) : Prop where
  ssh : ∀ d, Prevails g d → d.pinned ≠ 0 → ¬ (d.hostIp = host ∧ d.pinned = ssh)
  each : ∀ d d', Prevails g d → Prevails g d' → d.pinned ≠ 0 → d'.pinned ≠ 0 → d.containerPort ≠ d'.containerPort →
    ¬ (d.hostIp = d'.hostIp ∧ d.pinned = d'.pinned)

instance : DecidableRel SameSocket := fun b b' => inferInstanceAs (Decidable (b.hostIp = b'.hostIp ∧ _))

instance : Std.Symm (¬ SameSocket · ·) := ⟨fun _ _ h hs => h ⟨hs.1.symm, hs.2.symm⟩⟩

/-- In a list in the order of container ports no two bindings share a socket unless two different members do. -/
theorem pairwise_apart_iff {bs : List Container.Binding}
    (hbs : bs.Pairwise fun b b' => b.containerPort < b'.containerPort) :
    bs.Pairwise (¬ SameSocket · ·) ↔
      ∀ b ∈ bs, ∀ b' ∈ bs, b.containerPort ≠ b'.containerPort → ¬ SameSocket b b' := by
  constructor
  · intro h b hb b' hb' hne
    exact h.forall hb hb' fun heq => hne (congrArg _ heq)
  · intro h
    exact hbs.imp_of_mem fun hb hb' hlt => h _ hb _ hb' (UInt16.ne_of_lt hlt)

/-- The sockets of a layout are apart exactly if those of the services that last are, from that of SSH as well. -/
theorem sockets_apart_iff {xs : List Placement} (hs : ∀ x ∈ xs, x.containerPort ≠ sshPort) :
    (layOut host ssh xs).bindings.values.Pairwise (¬ SameSocket · ·) ↔
      (∀ x, Lasts xs x → ¬ (x.demand.hostIp = host ∧ x.hostPort = ssh)) ∧
        ∀ x y, Lasts xs x → Lasts xs y → x.containerPort ≠ y.containerPort →
          ¬ (x.demand.hostIp = y.demand.hostIp ∧ x.hostPort = y.hostPort) := by
  rw [pairwise_apart_iff (ascending_layOut ..)]
  constructor
  · intro hapart
    refine ⟨fun x hx => ?_, fun x y hx hy => ?_⟩
    · exact hapart _ (hx.binding_mem hs) _ ((mem_bindings_iff hs).2 (.inl rfl)) (hs x hx.mem)
    · exact hapart _ (hx.binding_mem hs) _ (hy.binding_mem hs)
  · rintro ⟨hssh, heach⟩ b hb b' hb' hne
    rcases (mem_bindings_iff hs).1 hb with rfl | ⟨x, hx, rfl⟩ <;>
      rcases (mem_bindings_iff hs).1 hb' with rfl | ⟨y, hy, rfl⟩
    · exact absurd rfl hne
    · exact fun hsame => hssh y hy ⟨hsame.1.symm, hsame.2.symm⟩
    · exact hssh x hx
    · exact heach x y hx hy hne

section Given
variable {ports : List UInt16}

/-- Fresh ports go to services that nothing else shares a host port with. -/
theorem Fresh.nodup (hf : Fresh answers ports.length g ssh)
    (given : ∀ i (hi : i < ports.length), answers i = .ok ports[i]) : ports.Nodup := by
  refine List.nodup_iff_injective_getElem.2 fun ⟨i, hi⟩ ⟨j, hj⟩ heq => Fin.ext ?_
  exact hf.apart i hi j hj ports[i] (given i hi) (by rw [given j hj]; exact congrArg _ heq.symm)

theorem Fresh.ne_ssh (hf : Fresh answers ports.length g ssh)
    (given : ∀ i (hi : i < ports.length), answers i = .ok ports[i]) : ssh ∉ ports := by
  intro hm
  obtain ⟨i, hi, rfl⟩ := List.mem_iff_getElem.1 hm
  exact hf.ssh i hi (given i hi)

theorem Fresh.ne_pinned (hf : Fresh answers ports.length g ssh)
    (given : ∀ i (hi : i < ports.length), answers i = .ok ports[i]) {d : Demand} (hd : d ∈ demands g)
    (hp : d.pinned ≠ 0) : d.pinned ∉ ports := by
  intro hm
  obtain ⟨i, hi, heq⟩ := List.mem_iff_getElem.1 hm
  exact hf.pinned i hi d hd hp (heq ▸ given i hi)

/-- No other service has the host port of one that asked for a free one. -/
theorem Fresh.hostPort_ne (hf : Fresh answers ports.length g ssh)
    (given : ∀ i (hi : i < ports.length), answers i = .ok ports[i]) (length : ports.length = (unpinned g).length)
    {x y : Placement} (hx : x ∈ placements (demands g) ports) (hy : y ∈ placements (demands g) ports)
    (hp : x.demand.pinned = 0) (hne : x ≠ y) : x.hostPort ≠ y.hostPort := by
  intro heq
  by_cases hq : y.demand.pinned = 0
  · exact hne (eq_of_hostPort_eq (hf.nodup given) hx hy hp hq heq)
  · have hyd : y.demand ∈ demands g := map_demand_placements length ▸ List.mem_map_of_mem hy
    rw [hostPort_of_pinned hy hq] at heq
    exact hf.ne_pinned given hyd hq (heq ▸ hostPort_mem_of_unpinned hx hp)

end Given

/-- The sockets of a layout on fresh ports are apart if and only if those that the graph asks for are. -/
theorem layout_books_once_iff (h : makeInTurn answers g host ssh = (.ok p, n)) (hf : Fresh answers n g ssh) :
    p.bindings.values.Pairwise (¬ SameSocket · ·) ↔ PinsApart g host ssh := by
  obtain ⟨hfree, ports, length, rfl, given, rfl⟩ := exists_of_makeInTurn h
  have hxs : (placements (demands g) ports).map (·.demand) = demands g := map_demand_placements length
  rw [sockets_apart_iff (containerPort_ne_ssh_of_mem hfree hxs)]
  constructor
  · rintro ⟨hssh, heach⟩
    refine ⟨fun d hd hp => ?_, fun d d' hd hd' hp hp' => ?_⟩
    · obtain ⟨x, hx, rfl⟩ := (prevails_iff hxs).1 hd
      rw [← hostPort_of_pinned hx.mem hp]
      exact hssh x hx
    · obtain ⟨x, hx, rfl⟩ := (prevails_iff hxs).1 hd
      obtain ⟨y, hy, rfl⟩ := (prevails_iff hxs).1 hd'
      rw [← hostPort_of_pinned hx.mem hp, ← hostPort_of_pinned hy.mem hp']
      exact heach x y hx hy
  · intro hpins
    -- a port that was given out is shared with nothing, so only pinned ones have to be compared
    have prevails {x : Placement} (hx : Lasts (placements (demands g) ports) x) : Prevails g x.demand :=
      (prevails_iff hxs).2 ⟨x, hx, rfl⟩
    refine ⟨fun x hx => ?_, fun x y hx hy hne => ?_⟩
    · by_cases hp : x.demand.pinned = 0
      · exact fun hsame => hf.ne_ssh given (hsame.2 ▸ hostPort_mem_of_unpinned hx.mem hp)
      · rw [hostPort_of_pinned hx.mem hp]
        exact hpins.ssh _ (prevails hx) hp
    · have hxy : x ≠ y := fun heq => hne (congrArg _ heq)
      by_cases hp : x.demand.pinned = 0
      · exact fun hsame => hf.hostPort_ne given length hx.mem hy.mem hp hxy hsame.2
      by_cases hq : y.demand.pinned = 0
      · exact fun hsame => hf.hostPort_ne given length hy.mem hx.mem hq hxy.symm hsame.2.symm
      rw [hostPort_of_pinned hx.mem hp, hostPort_of_pinned hy.mem hq]
      exact hpins.each _ _ (prevails hx) (prevails hy) hp hq hne

/-- A graph with a notebook on a free port beside a service on a pinned one. -/
def notebook : Graph := { jupyter := some {}, exposures := [⟨6006, 16006, "tensorboard", none⟩] }

theorem layout_books_once_notebook : ∃ p, makeInTurn (counting 40001) notebook Label.localhost 10022 = (.ok p, 1) ∧
    Fresh (counting 40001) 1 notebook 10022 ∧
    (p.bindings.values.Pairwise (¬ SameSocket · ·) ↔ PinsApart notebook Label.localhost 10022) := by
  have hfresh : Fresh (counting 40001) 1 notebook 10022 := by
    refine ⟨fun i hi j hj _ _ _ => by omega, fun i hi => ?_, fun i hi d hd hp => ?_⟩
    · obtain rfl : i = 0 := by omega
      decide
    · obtain rfl : i = 0 := by omega
      revert d
      decide
  exact ⟨_, rfl, hfresh, layout_books_once_iff rfl hfresh⟩

/-- A graph that asks for one host port for two services. -/
def rivalling : Graph := { exposures := [⟨8000, 9000, "api", none⟩, ⟨8001, 9000, "web", none⟩] }

/-- Both services are bound to the port, without a question. -/
theorem rivals_booked_twice : Fresh (counting 10001) 0 rivalling 10022 ∧
    ∃ p, makeInTurn (counting 10001) rivalling Label.localhost 10022 = (.ok p, 0) ∧
      ¬ p.bindings.values.Pairwise (¬ SameSocket · ·) :=
  ⟨⟨nofun, nofun, nofun⟩, _, rfl, by decide⟩

end Booking

end DevEnv.Plan
