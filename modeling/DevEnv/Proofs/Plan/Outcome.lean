import DevEnv.Proofs.Plan.Placement

/-! What comes of laying out the ports of a graph, whatever the host answers: a refusal without a question, an end at
the first port that the host cannot give, or a place for every service. -/
namespace DevEnv.Plan

section Host
variable {α : Type} {answers : Nat → Except String UInt16}

/-- A host that answers one question for a free port after the other; the state counts them. -/
def inTurn (answers : Nat → Except String UInt16) : ExceptT Error (StateM Nat) UInt16 :=
  ExceptT.mk fun n => ((answers n).mapError .io, n + 1)

/-- The layout of a graph with the answers of such a host, and the number of questions. -/
def makeInTurn (answers : Nat → Except String UInt16) (g : Graph) (host : String) (ssh : UInt16) :
    Except Error Plan × Nat :=
  (make (inTurn answers) g host ssh).run.run 0

theorem run_bind {β : Type} (x : ExceptT Error (StateM Nat) β) (f : β → ExceptT Error (StateM Nat) α) (n : Nat) :
    (x >>= f).run.run n = match x.run.run n with
      | (.ok b, k) => (f b).run.run k
      | (.error e, k) => (.error e, k) := by
  change (match x.run.run n with | (r, k) => (ExceptT.bindCont f r).run k) = _
  rcases x.run.run n with ⟨_ | _, _⟩ <;> rfl

/-- A number of questions that is asked from one on: all have an answer, or the first without one is the last. -/
inductive Asked (answers : Nat → Except String UInt16) (first wanted : Nat) :
    Except Error (List UInt16) × Nat → Prop where
  | given {ports : List UInt16} (length : ports.length = wanted)
      (given : ∀ i (hi : i < ports.length), answers (first + i) = .ok ports[i]) :
      Asked answers first wanted (.ok ports, first + wanted)
  | denied {k : Nat} {reason : String} (lt : k < wanted) (before : ∀ i < k, ∃ port, answers (first + i) = .ok port)
      (denied : answers (first + k) = .error reason) :
      Asked answers first wanted (.error (.io reason), first + k + 1)

theorem Asked.next {first wanted : Nat} {port : UInt16} (hport : answers first = .ok port)
    {r : Except Error (List UInt16)} {n : Nat} (h : Asked answers (first + 1) wanted (r, n)) :
    Asked answers first (wanted + 1) (r.map (port :: ·), n) := by
  cases h with
  | @given ports length given =>
    rw [Nat.add_right_comm]
    refine .given (congrArg (· + 1) length) fun i hi => ?_
    cases i with
    | zero => exact hport
    | succ i =>
      rw [← Nat.add_assoc, Nat.add_right_comm]
      exact given i (Nat.lt_of_succ_lt_succ hi)
  | @denied k reason lt before denied =>
    rw [Nat.add_right_comm first]
    refine .denied (k := k + 1) (Nat.succ_lt_succ lt) (fun i hi => ?_) ?_
    · cases i with
      | zero => exact ⟨port, hport⟩
      | succ i =>
        rw [← Nat.add_assoc, Nat.add_right_comm]
        exact before i (Nat.lt_of_succ_lt_succ hi)
    · rw [← Nat.add_assoc, Nat.add_right_comm]
      exact denied

theorem asked_mapM (answers : Nat → Except String UInt16) (ds : List α) (n : Nat) :
    Asked answers n ds.length ((ds.mapM fun _ => inTurn answers).run.run n) := by
  induction ds generalizing n with
  | nil => exact .given rfl nofun
  | cons d ds ih =>
    rw [List.mapM_cons, run_bind, show (inTurn answers).run.run n = ((answers n).mapError .io, n + 1) from rfl]
    cases hn : answers n with
    | error reason => exact .denied (k := 0) (Nat.succ_pos _) nofun hn
    | ok port =>
      have hrest := ih (n + 1)
      dsimp only [Except.mapError]
      rw [run_bind]
      rcases hr : (ds.mapM fun _ => inTurn answers).run.run (n + 1) with ⟨_ | ports, k⟩ <;> rw [hr] at hrest <;>
        exact hrest.next hn

end Host

section Conflicts
variable {g : Graph}

/-- A container port is that of SSH or of another service with a port of its own that the graph declares. -/
def Reserved (g : Graph) (q : UInt16) : Prop :=
  q = sshPort ∨ q = jupyterPort ∧ g.jupyter.isSome ∨ q = rstudioPort ∧ g.rstudio

/-- Some exposure is of a reserved port. -/
def Conflicts (g : Graph) : Prop := ∃ e ∈ g.exposures, Reserved g e.containerPort

theorem mem_reserved_iff {q : UInt16} : (∃ owner, (q, owner) ∈ reserved g) ↔ Reserved g q := by
  unfold reserved Reserved
  cases g.jupyter.isSome <;> cases g.rstudio <;> simp [exists_or]

theorem lookup_reserved_eq_none_iff {q : UInt16} : (reserved g).lookup q = none ↔ ¬ Reserved g q := by
  rw [← mem_reserved_iff, List.lookup_eq_none_iff]
  constructor
  · rintro h ⟨owner, ho⟩
    exact bne_iff_ne.1 (h _ ho) rfl
  · rintro h ⟨q', owner⟩ ho
    refine bne_iff_ne.2 ?_
    rintro rfl
    exact h ⟨owner, ho⟩

theorem checkReserved_eq_ok_iff : checkReserved g = .ok () ↔ ¬ Conflicts g := by
  have hnone : (g.exposures.findSome? fun e =>
      ((reserved g).lookup e.containerPort).map (e.containerPort, ·)) = none ↔ ¬ Conflicts g := by
    simp only [List.findSome?_eq_none_iff, Option.map_eq_none_iff, lookup_reserved_eq_none_iff, Conflicts, not_exists,
      not_and]
  rw [← hnone, checkReserved]
  split
  · next h => simp [h]
  · next h => simp [h]

/-- The first exposure of a reserved port is what a refusal is about. -/
theorem exists_of_checkReserved {e : Error} (h : checkReserved g = .error e) :
    ∃ above x below owner, g.exposures = above ++ x :: below ∧ (∀ y ∈ above, ¬ Reserved g y.containerPort) ∧
      (x.containerPort, owner) ∈ reserved g ∧
      e = .invalidOptions s!"exposed port {Text.ofNat x.containerPort.toNat} is reserved for {owner}" := by
  unfold checkReserved at h
  split at h
  · next port owner hfind =>
    obtain ⟨above, x, below, hexposures, hx, habove⟩ := List.findSome?_eq_some_iff.1 hfind
    obtain ⟨_, hlookup, heq⟩ := Option.map_eq_some_iff.1 hx
    cases heq
    cases h
    refine ⟨above, x, below, owner, hexposures, fun y hy => ?_, SortedMap.mem_of_lookup hlookup, rfl⟩
    exact lookup_reserved_eq_none_iff.1 (by simpa using habove y hy)
  · cases h

end Conflicts

section Layout
variable {g : Graph} {host : String} {ssh : UInt16} {xs : List Placement}

theorem mem_demands {d : Demand} : d ∈ demands g ↔
    (∃ j, g.jupyter = some j ∧ d = .jupyter j) ∨ (g.rstudio ∧ d = .rstudio) ∨ ∃ e ∈ g.exposures, d = .exposure e := by
  unfold demands
  cases g.jupyter <;> cases g.rstudio <;> simp [eq_comm]

theorem exists_of_isJupyter {d : Demand} (hd : d ∈ demands g) (hk : d.isJupyter) : ∃ j, g.jupyter = some j := by
  rcases mem_demands.1 hd with ⟨j, hj, rfl⟩ | ⟨_, rfl⟩ | ⟨_, _, rfl⟩
  · exact ⟨j, hj⟩
  · cases hk
  · cases hk

theorem rstudio_of_isRstudio {d : Demand} (hd : d ∈ demands g) (hk : d.isRstudio) : g.rstudio = true := by
  rcases mem_demands.1 hd with ⟨_, _, rfl⟩ | ⟨hr, rfl⟩ | ⟨_, _, rfl⟩
  · cases hk
  · exact hr
  · cases hk

/-- A layout is what a graph, the socket of SSH and the host ports of the other services make of it. -/
structure LaysOutAt (p : Plan) (g : Graph) (host : String) (ssh : UInt16) (xs : List Placement) : Prop where
  /-- All services of the graph are placed, in their order. -/
  demanded : xs.map (·.demand) = demands g
  ascending : p.bindings.values.Pairwise fun b b' => b.containerPort < b'.containerPort
  bound_iff : ∀ q, (∃ b ∈ p.bindings.values, b.containerPort = q) ↔
    Reserved g q ∨ ∃ e ∈ g.exposures, e.containerPort = q
  reached : .tcp sshPort host ssh ∈ p.bindings.values
  jupyter : ∀ j, g.jupyter = some j → ∃ port, ⟨.jupyter j, port⟩ ∈ xs ∧ p.jupyter = some port ∧
    .tcp jupyterPort Label.localhost port ∈ p.bindings.values
  noJupyter : g.jupyter = none → p.jupyter = none
  rstudio : g.rstudio = true → ∃ port, ⟨.rstudio, port⟩ ∈ xs ∧ p.rstudio = some port ∧
    .tcp rstudioPort Label.localhost port ∈ p.bindings.values
  noRstudio : g.rstudio = false → p.rstudio = none
  /-- Of the exposures of a container port the last is bound. -/
  exposure : ∀ above e port below, xs = above ++ ⟨.exposure e, port⟩ :: below →
    (∀ y ∈ below, y.containerPort ≠ e.containerPort) →
      .tcp e.containerPort (e.address.getD Label.localhost) port ∈ p.bindings.values
  exposed : p.exposed.Nodup ∧
    ∀ q, q ∈ p.exposed ↔ q ≠ sshPort ∧ ∃ b ∈ p.bindings.values, b.containerPort = q
  /-- Container ports are exposed and services listed in the order in which they get their host ports. -/
  exposedInOrder : p.exposed = (xs.map Placement.containerPort).eraseDups
  services : p.services = ⟨sshService, ssh⟩ :: xs.map Placement.service

/-- Without a conflict no exposure is on a reserved port, so such a port tells its service. -/
theorem not_reserved_of_exposure (hc : ¬ Conflicts g) {e : Graph.Exposure} (hd : .exposure e ∈ demands g) :
    ¬ Reserved g e.containerPort := by
  rcases mem_demands.1 hd with ⟨_, _, hd⟩ | ⟨_, hd⟩ | ⟨_, he, hd⟩ <;> cases hd
  exact fun hr => hc ⟨e, he, hr⟩

theorem containerPort_ne_ssh (hc : ¬ Conflicts g) {d : Demand} (hd : d ∈ demands g) : d.containerPort ≠ sshPort := by
  cases d with
  | jupyter j => exact (by decide : jupyterPort ≠ sshPort)
  | rstudio => exact (by decide : rstudioPort ≠ sshPort)
  | exposure e => exact fun hs => not_reserved_of_exposure hc hd (.inl hs)

theorem containerPort_ne_ssh_of_mem (hc : ¬ Conflicts g) (hxs : xs.map (·.demand) = demands g) :
    ∀ x ∈ xs, x.containerPort ≠ sshPort := fun _ hx =>
  containerPort_ne_ssh hc (hxs ▸ List.mem_map_of_mem hx)

theorem eq_jupyter (hc : ¬ Conflicts g) {j : Graph.Jupyter} (hj : g.jupyter = some j) {d : Demand}
    (hd : d ∈ demands g) (h : d.isJupyter ∨ d.containerPort = jupyterPort) : d = .jupyter j := by
  cases d with
  | jupyter j' =>
    rcases mem_demands.1 hd with ⟨_, hj', hd⟩ | ⟨_, hd⟩ | ⟨_, _, hd⟩ <;> cases hd
    rw [Option.some.inj (hj.symm.trans hj')]
  | rstudio => exact absurd h (by decide)
  | exposure e =>
    rcases h with h | h
    · cases h
    · exact absurd (.inr (.inl ⟨h, by rw [hj]; rfl⟩)) (not_reserved_of_exposure hc hd)

theorem eq_rstudio (hc : ¬ Conflicts g) (hr : g.rstudio = true) {d : Demand} (hd : d ∈ demands g)
    (h : d.isRstudio ∨ d.containerPort = rstudioPort) : d = .rstudio := by
  cases d with
  | jupyter j => exact absurd h (by simp [Demand.isRstudio, Demand.containerPort, jupyterPort, rstudioPort])
  | rstudio => rfl
  | exposure e =>
    rcases h with h | h
    · cases h
    · exact absurd (.inr (.inr ⟨h, hr⟩)) (not_reserved_of_exposure hc hd)

/-- The ports of SSH and of the services that a graph declares. -/
theorem reserved_or_exposed_iff {q : UInt16} : Reserved g q ∨ (∃ e ∈ g.exposures, e.containerPort = q) ↔
    q = sshPort ∨ ∃ d ∈ demands g, d.containerPort = q := by
  constructor
  · rintro ((rfl | ⟨rfl, hj⟩ | ⟨rfl, hr⟩) | ⟨e, he, rfl⟩)
    · exact .inl rfl
    · obtain ⟨j, hj⟩ := Option.isSome_iff_exists.1 hj
      exact .inr ⟨.jupyter j, mem_demands.2 (.inl ⟨j, hj, rfl⟩), rfl⟩
    · exact .inr ⟨.rstudio, mem_demands.2 (.inr (.inl ⟨hr, rfl⟩)), rfl⟩
    · exact .inr ⟨.exposure e, mem_demands.2 (.inr (.inr ⟨e, he, rfl⟩)), rfl⟩
  · rintro (rfl | ⟨d, hd, rfl⟩)
    · exact .inl (.inl rfl)
    · rcases mem_demands.1 hd with ⟨j, hj, rfl⟩ | ⟨hr, rfl⟩ | ⟨e, he, rfl⟩
      · exact .inl (.inr (.inl ⟨rfl, by rw [hj]; rfl⟩))
      · exact .inl (.inr (.inr ⟨rfl, hr⟩))
      · exact .inr ⟨e, he, rfl⟩

/-- Whatever ports the services that a graph declares are placed on, the layout is as it says. -/
theorem laysOutAt_layOut (hc : ¬ Conflicts g) (hxs : xs.map (·.demand) = demands g) :
    (layOut host ssh xs).LaysOutAt g host ssh xs := by
  have placed {d : Demand} (hd : d ∈ demands g) : ∃ port, ⟨d, port⟩ ∈ xs := by
    rw [← hxs] at hd
    obtain ⟨x, hx, rfl⟩ := List.mem_map.1 hd
    exact ⟨x.hostPort, hx⟩
  have demanded {x : Placement} (hx : x ∈ xs) : x.demand ∈ demands g := by
    rw [← hxs]
    exact List.mem_map_of_mem hx
  have hs : ∀ x ∈ xs, x.containerPort ≠ sshPort := containerPort_ne_ssh_of_mem hc hxs
  refine
    { demanded := hxs
      ascending := ascending_layOut ..
      bound_iff := fun q => (exists_mem_bindings_iff hs).trans ?_
      reached := (mem_bindings_iff hs).2 (.inl rfl)
      jupyter := fun j hj => ?_
      noJupyter := fun hj => kept_eq_none Plan.jupyter rfl jupyter_place fun x hx hk => ?_
      rstudio := fun hr => ?_
      noRstudio := fun hr => kept_eq_none Plan.rstudio rfl rstudio_place fun x hx hk => ?_
      exposure := fun above e port below hsplit hbelow => ?_
      exposed := ⟨nodup_exposed_layOut .., fun q => ?_⟩
      exposedInOrder := exposed_layOut ..
      services := services_layOut .. }
  · rw [reserved_or_exposed_iff]
    refine or_congr_right ⟨?_, ?_⟩
    · rintro ⟨x, hx, hq⟩
      exact ⟨x.demand, demanded hx, hq⟩
    · rintro ⟨d, hd, hq⟩
      obtain ⟨port, hx⟩ := placed hd
      exact ⟨_, hx, hq⟩
  · obtain ⟨port, hkept, hlast⟩ := exists_kept Plan.jupyter rfl jupyter_place
      (placed (mem_demands.2 (.inl ⟨j, hj, rfl⟩))) rfl fun x hx => eq_jupyter hc hj (demanded hx)
    exact ⟨port, hlast.mem, hkept, hlast.binding_mem hs⟩
  · obtain ⟨j, hsome⟩ := exists_of_isJupyter (demanded hx) hk
    rw [hj] at hsome
    cases hsome
  · obtain ⟨port, hkept, hlast⟩ := exists_kept Plan.rstudio rfl rstudio_place
      (placed (mem_demands.2 (.inr (.inl ⟨hr, rfl⟩)))) rfl fun x hx => eq_rstudio hc hr (demanded hx)
    exact ⟨port, hlast.mem, hkept, hlast.binding_mem hs⟩
  · rw [rstudio_of_isRstudio (demanded hx) hk] at hr
    cases hr
  · have hlast : Lasts xs ⟨.exposure e, port⟩ := lastAt_eq_some_iff.2 ⟨rfl, above, below, hsplit, hbelow⟩
    exact hlast.binding_mem hs
  · rw [exposed_layOut, List.mem_eraseDups, List.mem_map, exists_mem_bindings_iff hs]
    constructor
    · rintro ⟨x, hx, rfl⟩
      exact ⟨hs x hx, .inr ⟨x, hx, rfl⟩⟩
    · rintro ⟨hq, rfl | hx⟩
      · exact absurd rfl hq
      · exact hx

end Layout

section Outcome
variable {answers : Nat → Except String UInt16} {g : Graph} {host : String} {ssh : UInt16}

theorem makeInTurn_eq (answers : Nat → Except String UInt16) (g : Graph) (host : String) (ssh : UInt16) :
    makeInTurn answers g host ssh = match checkReserved g with
      | .error e => (.error e, 0)
      | .ok () => match ((unpinned g).mapM fun _ => inTurn answers).run.run 0 with
        | (.ok ports, k) => (.ok (layOut host ssh (placements (demands g) ports)), k)
        | (.error e, k) => (.error e, k) := by
  rw [makeInTurn, make_eq]
  cases checkReserved g with
  | error e => rfl
  | ok _ =>
    dsimp only
    rw [run_bind]
    rcases ((unpinned g).mapM fun _ => inTurn answers).run.run 0 with ⟨_ | _, _⟩ <;> rfl

/-- Without a conflict the host is asked for one port after the other, and the services are placed if it gives all. -/
theorem asked_makeInTurn (answers : Nat → Except String UInt16) (hfree : ¬ Conflicts g) (host : String)
    (ssh : UInt16) :
    (∃ ports : List UInt16, ports.length = (unpinned g).length ∧
      (∀ i (hi : i < ports.length), answers i = .ok ports[i]) ∧ makeInTurn answers g host ssh =
        (.ok (layOut host ssh (placements (demands g) ports)), (unpinned g).length)) ∨
    ∃ k reason, k < (unpinned g).length ∧ (∀ i < k, ∃ port, answers i = .ok port) ∧ answers k = .error reason ∧
      makeInTurn answers g host ssh = (.error (.io reason), k + 1) := by
  have heq := makeInTurn_eq answers g host ssh
  rw [checkReserved_eq_ok_iff.2 hfree] at heq
  have hasked := asked_mapM answers (unpinned g) 0
  dsimp only at heq
  generalize ((unpinned g).mapM fun _ => inTurn answers).run.run 0 = r at heq hasked
  cases hasked with
  | @given ports length given =>
    simp only [Nat.zero_add] at heq given
    exact .inl ⟨ports, length, given, heq⟩
  | @denied k reason lt before denied =>
    simp only [Nat.zero_add] at heq before denied
    exact .inr ⟨k, reason, lt, before, denied, heq⟩

/-- A layout that succeeds places every service, those without a pinned port on the answers of the host. -/
theorem exists_of_makeInTurn {p : Plan} {n : Nat} (h : makeInTurn answers g host ssh = (.ok p, n)) :
    ¬ Conflicts g ∧ ∃ ports : List UInt16, ports.length = (unpinned g).length ∧ n = ports.length ∧
      (∀ i (hi : i < ports.length), answers i = .ok ports[i]) ∧
      p = layOut host ssh (placements (demands g) ports) := by
  have hfree : ¬ Conflicts g := by
    rw [makeInTurn_eq] at h
    rw [← checkReserved_eq_ok_iff]
    cases hc : checkReserved g with
    | error e => rw [hc] at h; cases h
    | ok _ => rfl
  rcases asked_makeInTurn answers hfree host ssh with
    ⟨ports, length, given, heq⟩ | ⟨k, reason, -, -, -, heq⟩
  · rw [heq] at h
    cases h
    exact ⟨hfree, ports, length, length.symm, given, rfl⟩
  · rw [heq] at h
    cases h

/-- What laying out a graph comes to with a host that gives certain answers, and after how many questions. -/
inductive Outcome (answers : Nat → Except String UInt16) (g : Graph) (host : String) (ssh : UInt16) :
    Except Error Plan × Nat → Prop where
  /-- The first exposure of a reserved port is refused, and the host is asked for nothing. -/
  | refused {above x below owner} (exposures : g.exposures = above ++ x :: below)
      (before : ∀ y ∈ above, ¬ Reserved g y.containerPort) (reserved : (x.containerPort, owner) ∈ reserved g) :
      Outcome answers g host ssh (.error (.invalidOptions
        s!"exposed port {Text.ofNat x.containerPort.toNat} is reserved for {owner}"), 0)
  /-- The first port that the host cannot give is the last one that it is asked for. -/
  | denied {k reason} (free : ¬ Conflicts g) (lt : k < (unpinned g).length)
      (before : ∀ i < k, ∃ port, answers i = .ok port) (denied : answers k = .error reason) :
      Outcome answers g host ssh (.error (.io reason), k + 1)
  /-- The services without a pinned port are given the ports of the host in their order, and nothing more is asked. -/
  | laidOut {ports p} (free : ¬ Conflicts g) (length : ports.length = (unpinned g).length)
      (given : ∀ i (hi : i < ports.length), answers i = .ok ports[i])
      (layout : p.LaysOutAt g host ssh (placements (demands g) ports)) :
      Outcome answers g host ssh (.ok p, (unpinned g).length)

/-- A layout is refused if and only if an exposure takes a reserved port, and then without a question. Otherwise the
host is asked for as many ports as there are services without a pinned one, up to the first that it cannot give. -/
theorem make_outcome (answers : Nat → Except String UInt16) (g : Graph) (host : String) (ssh : UInt16) :
    Outcome answers g host ssh (makeInTurn answers g host ssh) ∧
      ((∃ text, makeInTurn answers g host ssh = (.error (.invalidOptions text), 0)) ↔ Conflicts g) := by
  by_cases hfree : Conflicts g
  · cases hc : checkReserved g with
    | ok _ => exact absurd hfree (checkReserved_eq_ok_iff.1 hc)
    | error e =>
      have heq : makeInTurn answers g host ssh = (.error e, 0) := by rw [makeInTurn_eq, hc]
      obtain ⟨above, x, below, owner, hexposures, hbefore, hreserved, rfl⟩ := exists_of_checkReserved hc
      rw [heq]
      exact ⟨.refused hexposures hbefore hreserved, fun _ => hfree, fun _ => ⟨_, rfl⟩⟩
  · rcases asked_makeInTurn answers hfree host ssh with
      ⟨ports, length, given, heq⟩ | ⟨k, reason, lt, before, denied, heq⟩
    · have hxs : (placements (demands g) ports).map (·.demand) = demands g := map_demand_placements length
      rw [heq]
      refine ⟨.laidOut hfree length given (laysOutAt_layOut hfree hxs), fun h => ?_, fun h => absurd h hfree⟩
      obtain ⟨_, h⟩ := h
      cases h
    · rw [heq]
      refine ⟨.denied hfree lt before denied, fun h => ?_, fun h => absurd h hfree⟩
      obtain ⟨_, h⟩ := h
      cases h

end Outcome

end DevEnv.Plan
