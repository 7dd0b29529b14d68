import DevEnv.Proofs.Plan
import Mathlib.Data.List.Find
import Mathlib.Data.List.Induction

/-! Host ports for the services of a graph. The services get them in one order, and those without a pinned port are
given the free ones in the order in which these come; so a layout depends on the answers of the host and not on
when they were asked for. -/
namespace DevEnv.Plan

/-- A service that a graph declares besides SSH. -/
inductive Demand where
  | jupyter (j : Graph.Jupyter)
  | rstudio
  | exposure (e : Graph.Exposure)
  deriving DecidableEq

namespace Demand

def name : Demand → String
  | jupyter _ => jupyterService
  | rstudio => rstudioService
  | exposure e => exposureName e

def containerPort : Demand → UInt16
  | jupyter _ => jupyterPort
  | rstudio => rstudioPort
  | exposure e => e.containerPort

/-- The address of the host that it is reached at. -/
def hostIp : Demand → String
  | jupyter _ | rstudio => Label.localhost
  | exposure e => e.address.getD Label.localhost

/-- The port of the host that it asks for; zero asks for a free one. -/
def pinned : Demand → UInt16
  | jupyter j => j.port
  | rstudio => 0
  | exposure e => e.hostPort

def isJupyter : Demand → Bool
  | jupyter _ => true
  | _ => false

def isRstudio : Demand → Bool
  | rstudio => true
  | _ => false

end Demand

/-- The services of a graph in the order in which they get their host ports. -/
def demands (g : Graph) : List Demand :=
  g.jupyter.toList.map .jupyter ++ (if g.rstudio then [.rstudio] else []) ++ g.exposures.map .exposure

/-- The services that ask for a free port. -/
def unpinned (g : Graph) : List Demand := (demands g).filter (·.pinned = 0)

/-- A service with the host port that it is given. -/
structure Placement where
  demand : Demand
  hostPort : UInt16
  deriving DecidableEq

namespace Placement

def containerPort (x : Placement) : UInt16 := x.demand.containerPort

def binding (x : Placement) : Container.Binding := .tcp x.containerPort x.demand.hostIp x.hostPort

def service (x : Placement) : ServicePort := ⟨x.demand.name, x.hostPort⟩

end Placement

/-- Pinned services have their ports, the others take free ones, as long as there are any. -/
def placements : List Demand → List UInt16 → List Placement
  | [], _ => []
  | d :: ds, free =>
    if d.pinned = 0 then
      match free with
      | [] => []
      | port :: free => ⟨d, port⟩ :: placements ds free
    else ⟨d, d.pinned⟩ :: placements ds free

/-- Adds a service; the ports of those with an address of their own are kept apart as well. -/
def place (p : Plan) (x : Placement) : Plan :=
  let p := p.addService x.demand.name x.containerPort x.demand.hostIp x.hostPort
  match x.demand with
  | .jupyter _ => { p with jupyter := some x.hostPort }
  | .rstudio => { p with rstudio := some x.hostPort }
  | .exposure _ => p

/-- The layout of services after SSH. -/
def layOut (host : String) (ssh : UInt16) (xs : List Placement) : Plan := xs.foldl place (ofSsh host ssh)

section Questions
variable {m : Type → Type} [Monad m] [LawfulMonad m] (free : m UInt16) (g : Graph)

/-- One service after the other is given its port. -/
def placeDemand (p : Plan) (d : Demand) : m Plan := do
  let port ← pick free d.pinned
  return p.place ⟨d, port⟩

private theorem addServices_eq (p : Plan) :
    (do
      let p ← addJupyter free g p
      let p ← addRstudio free g p
      g.exposures.foldlM (addExposure free) p) = (demands g).foldlM (placeDemand free) p := by
  have hjupyter : addJupyter free g p = (g.jupyter.toList.map Demand.jupyter).foldlM (placeDemand free) p := by
    unfold addJupyter
    cases g.jupyter with
    | none => rfl
    | some j => simp [placeDemand, Demand.pinned, place, Placement.containerPort, Demand.containerPort, Demand.name,
        Demand.hostIp]
  have hrstudio (p : Plan) : addRstudio free g p =
      (if g.rstudio then [Demand.rstudio] else []).foldlM (placeDemand free) p := by
    unfold addRstudio
    cases g.rstudio with
    | false => rfl
    | true => simp [placeDemand, pick, Demand.pinned, place, Placement.containerPort, Demand.containerPort,
        Demand.name, Demand.hostIp]
  have hexposures (p : Plan) : g.exposures.foldlM (addExposure free) p =
      (g.exposures.map Demand.exposure).foldlM (placeDemand free) p := by
    rw [List.foldlM_map]
    rfl
  simp only [demands, List.foldlM_append, hjupyter, hrstudio, hexposures, bind_assoc]

/-- The free ports may as well be asked for before any service is placed. -/
private theorem foldlM_placeDemand (ds : List Demand) (p : Plan) :
    ds.foldlM (placeDemand free) p = do
      let ports ← (ds.filter (·.pinned = 0)).mapM fun _ => free
      return (placements ds ports).foldl place p := by
  induction ds generalizing p with
  | nil => simp [placements]
  | cons d ds ih =>
    rw [List.foldlM_cons, placeDemand, pick]
    by_cases hd : d.pinned = 0
    · simp [hd, ih, placements]
    · simp [hd, ih, placements]

/-- A layout asks for one free port for each service without a pinned one, in the order of the services, and for
none if an exposure takes a reserved port. -/
theorem make_eq (free : ExceptT Error m UInt16) (host : String) (ssh : UInt16) :
    make free g host ssh = match checkReserved g with
      | .error e => throw e
      | .ok () => do
        let ports ← (unpinned g).mapM fun _ => free
        return layOut host ssh (placements (demands g) ports) := by
  unfold make
  cases checkReserved g with
  | error e => rfl
  | ok _ => exact (addServices_eq free g _).trans (foldlM_placeDemand free (demands g) _)

end Questions

section Ports
variable {ds : List Demand} {ports : List UInt16} {x y : Placement}

theorem map_demand_placements (hl : ports.length = (ds.filter (·.pinned = 0)).length) :
    (placements ds ports).map (·.demand) = ds := by
  fun_induction placements ds ports with
  | case1 => rfl
  | case2 d ds hd => simp [hd] at hl
  | case3 d ds hd port ports ih =>
    have hl : ports.length = (ds.filter (·.pinned = 0)).length := by simpa [hd] using hl
    rw [List.map_cons, ih hl]
  | case4 d ds ports hd ih =>
    have hl : ports.length = (ds.filter (·.pinned = 0)).length := by simpa [hd] using hl
    rw [List.map_cons, ih hl]

theorem hostPort_of_pinned (hx : x ∈ placements ds ports) (hp : x.demand.pinned ≠ 0) :
    x.hostPort = x.demand.pinned := by
  fun_induction placements ds ports with
  | case1 => cases hx
  | case2 => cases hx
  | case3 d ds hd port ports ih =>
    rcases List.mem_cons.1 hx with rfl | hx
    · exact absurd hd hp
    · exact ih hx
  | case4 d ds ports hd ih =>
    rcases List.mem_cons.1 hx with rfl | hx
    · rfl
    · exact ih hx

theorem hostPort_mem_of_unpinned (hx : x ∈ placements ds ports) (hp : x.demand.pinned = 0) : x.hostPort ∈ ports := by
  fun_induction placements ds ports with
  | case1 => cases hx
  | case2 => cases hx
  | case3 d ds hd port ports ih =>
    rcases List.mem_cons.1 hx with rfl | hx
    · exact List.mem_cons_self
    · exact List.mem_cons_of_mem _ (ih hx)
  | case4 d ds ports hd ih =>
    rcases List.mem_cons.1 hx with rfl | hx
    · exact absurd hp hd
    · exact ih hx

/-- A free port goes to one service only. -/
theorem eq_of_hostPort_eq (hn : ports.Nodup) (hx : x ∈ placements ds ports) (hy : y ∈ placements ds ports)
    (hx0 : x.demand.pinned = 0) (hy0 : y.demand.pinned = 0) (h : x.hostPort = y.hostPort) : x = y := by
  fun_induction placements ds ports with
  | case1 => cases hx
  | case2 => cases hx
  | case3 d ds hd port ports ih =>
    obtain ⟨hport, hn⟩ := List.nodup_cons.1 hn
    rcases List.mem_cons.1 hx with rfl | hx <;> rcases List.mem_cons.1 hy with rfl | hy
    · rfl
    · rw [show port = y.hostPort from h] at hport
      exact absurd (hostPort_mem_of_unpinned hy hy0) hport
    · rw [show port = x.hostPort from h.symm] at hport
      exact absurd (hostPort_mem_of_unpinned hx hx0) hport
    · exact ih hn hx hy
  | case4 d ds ports hd ih =>
    rcases List.mem_cons.1 hx with rfl | hx <;> rcases List.mem_cons.1 hy with rfl | hy
    · rfl
    · exact absurd hx0 hd
    · exact absurd hy0 hd
    · exact ih hn hx hy

end Ports

section Layout
variable {host : String} {ssh : UInt16} {xs : List Placement}

@[simp] theorem bindings_place (p : Plan) (x : Placement) :
    (p.place x).bindings = p.bindings.insert x.containerPort x.binding := by
  rcases x with ⟨_ | _ | _, _⟩ <;> rfl

@[simp] theorem exposed_place (p : Plan) (x : Placement) : (p.place x).exposed =
    if p.exposed.contains x.containerPort then p.exposed else p.exposed ++ [x.containerPort] := by
  rcases x with ⟨_ | _ | _, _⟩ <;> rfl

@[simp] theorem services_place (p : Plan) (x : Placement) : (p.place x).services = p.services ++ [x.service] := by
  rcases x with ⟨_ | _ | _, _⟩ <;> rfl

@[simp] theorem jupyter_place (p : Plan) (x : Placement) :
    (p.place x).jupyter = if x.demand.isJupyter then some x.hostPort else p.jupyter := by
  rcases x with ⟨_ | _ | _, _⟩ <;> rfl

@[simp] theorem rstudio_place (p : Plan) (x : Placement) :
    (p.place x).rstudio = if x.demand.isRstudio then some x.hostPort else p.rstudio := by
  rcases x with ⟨_ | _ | _, _⟩ <;> rfl

theorem layOut_concat (xs : List Placement) (x : Placement) :
    layOut host ssh (xs ++ [x]) = (layOut host ssh xs).place x := by
  rw [layOut, List.foldl_append]
  rfl

/-- Of the services placed on a container port the last. -/
def lastAt (xs : List Placement) (q : UInt16) : Option Placement := xs.reverse.find? (·.containerPort = q)

theorem lastAt_concat (xs : List Placement) (x : Placement) (q : UInt16) :
    lastAt (xs ++ [x]) q = if x.containerPort = q then some x else lastAt xs q := by
  rw [lastAt, List.reverse_append, List.reverse_singleton, List.singleton_append, List.find?_cons]
  by_cases hq : x.containerPort = q <;> simp [hq, lastAt]

theorem lastAt_eq_some_iff {q : UInt16} {x : Placement} : lastAt xs q = some x ↔
    x.containerPort = q ∧ ∃ above below, xs = above ++ x :: below ∧ ∀ y ∈ below, y.containerPort ≠ q := by
  rw [lastAt, List.find?_eq_some_iff_append, decide_eq_true_iff]
  refine and_congr_right fun _ => ⟨?_, ?_⟩
  · rintro ⟨below, above, hxs, hb⟩
    refine ⟨above.reverse, below.reverse, ?_, fun y hy => by simpa using hb y (List.mem_reverse.1 hy)⟩
    rw [← List.reverse_reverse xs, hxs, List.reverse_append, List.reverse_cons, List.append_assoc,
      List.singleton_append]
  · rintro ⟨above, below, rfl, hb⟩
    refine ⟨below.reverse, above.reverse, ?_, fun y hy => by simpa using hb y (List.mem_reverse.1 hy)⟩
    rw [List.reverse_append, List.reverse_cons, List.append_assoc, List.singleton_append]

/-- The last service placed on a container port takes its binding; SSH has that of its own port otherwise. -/
theorem get?_layOut (host : String) (ssh : UInt16) (xs : List Placement) (q : UInt16) :
    (layOut host ssh xs).bindings.get? q =
      ((lastAt xs q).map Placement.binding).or (if q = sshPort then some (.tcp sshPort host ssh) else none) := by
  induction xs using List.reverseRecOn with
  | nil => exact get?_ofSsh host ssh q
  | append_singleton xs x ih =>
    rw [layOut_concat, bindings_place, SortedMap.get?_insert, lastAt_concat, ih]
    by_cases hq : q = x.containerPort
    · rw [if_pos hq, if_pos hq.symm]
      rfl
    · rw [if_neg hq, if_neg (Ne.symm hq)]

theorem services_layOut (host : String) (ssh : UInt16) (xs : List Placement) :
    (layOut host ssh xs).services = ⟨sshService, ssh⟩ :: xs.map Placement.service := by
  induction xs using List.reverseRecOn with
  | nil => rfl
  | append_singleton xs x ih => rw [layOut_concat, services_place, ih, List.map_append]; rfl

/-- A service keeps the binding of its container port, since no later one is placed on it. -/
def Lasts (xs : List Placement) (x : Placement) : Prop := lastAt xs x.containerPort = some x

theorem Lasts.mem {x : Placement} (h : Lasts xs x) : x ∈ xs := by
  obtain ⟨-, above, below, rfl, -⟩ := lastAt_eq_some_iff.1 h
  exact List.mem_append_right _ List.mem_cons_self

theorem exists_lasts {x : Placement} (hx : x ∈ xs) : ∃ y, Lasts xs y ∧ y.containerPort = x.containerPort := by
  cases hy : lastAt xs x.containerPort with
  | none =>
    have hne : ¬ decide (x.containerPort = x.containerPort) = true :=
      List.find?_eq_none.1 hy x (List.mem_reverse.2 hx)
    exact absurd (decide_eq_true rfl) hne
  | some y =>
    have hport := (lastAt_eq_some_iff.1 hy).1
    exact ⟨y, by rw [Lasts, hport, hy], hport⟩

/-- Every binding is that of SSH or of a service that lasts, unless a service takes the port of SSH. -/
theorem mem_bindings_iff (hs : ∀ x ∈ xs, x.containerPort ≠ sshPort) {b : Container.Binding} :
    b ∈ (layOut host ssh xs).bindings.values ↔ b = .tcp sshPort host ssh ∨ ∃ x, Lasts xs x ∧ b = x.binding := by
  rw [SortedMap.mem_values]
  constructor
  · rintro ⟨q, hq⟩
    rw [get?_layOut] at hq
    rcases Option.or_eq_some_iff.1 hq with hlast | ⟨-, hb⟩
    · obtain ⟨x, hx, hb⟩ := Option.map_eq_some_iff.1 hlast
      obtain rfl := (lastAt_eq_some_iff.1 hx).1
      exact .inr ⟨x, hx, hb.symm⟩
    · split at hb
      · exact .inl (Option.some.inj hb).symm
      · cases hb
  · rintro (rfl | ⟨x, hx, rfl⟩)
    · refine ⟨sshPort, ?_⟩
      have hnone : lastAt xs sshPort = none := by
        refine List.find?_eq_none.2 fun x hx => ?_
        simpa using hs x (List.mem_reverse.1 hx)
      rw [get?_layOut, hnone, if_pos rfl]
      rfl
    · refine ⟨x.containerPort, ?_⟩
      rw [get?_layOut, show lastAt xs x.containerPort = some x from hx]
      rfl

theorem Lasts.binding_mem (hs : ∀ x ∈ xs, x.containerPort ≠ sshPort) {x : Placement} (hx : Lasts xs x) :
    x.binding ∈ (layOut host ssh xs).bindings.values :=
  (mem_bindings_iff hs).2 (.inr ⟨x, hx, rfl⟩)

theorem exists_mem_bindings_iff (hs : ∀ x ∈ xs, x.containerPort ≠ sshPort) {q : UInt16} :
    (∃ b ∈ (layOut host ssh xs).bindings.values, b.containerPort = q) ↔
      q = sshPort ∨ ∃ x ∈ xs, x.containerPort = q := by
  constructor
  · rintro ⟨b, hb, rfl⟩
    rcases (mem_bindings_iff hs).1 hb with rfl | ⟨x, hx, rfl⟩
    · exact .inl rfl
    · exact .inr ⟨x, hx.mem, rfl⟩
  · rintro (rfl | ⟨x, hx, rfl⟩)
    · exact ⟨_, (mem_bindings_iff hs).2 (.inl rfl), rfl⟩
    · obtain ⟨y, hy, hyx⟩ := exists_lasts hx
      exact ⟨_, hy.binding_mem hs, hyx⟩

/-- The bindings of a layout stand in the order of their container ports, and no two are of the same one. -/
theorem ascending_layOut (host : String) (ssh : UInt16) (xs : List Placement) :
    (layOut host ssh xs).bindings.values.Pairwise fun b b' => b.containerPort < b'.containerPort := by
  have filed {e : UInt16 × Container.Binding} (he : e ∈ (layOut host ssh xs).bindings.entries) :
      e.2.containerPort = e.1 := by
    have hget : (layOut host ssh xs).bindings.get? e.1 = some e.2 := SortedMap.get?_eq_some_iff.2 he
    rw [get?_layOut] at hget
    rcases Option.or_eq_some_iff.1 hget with hlast | ⟨-, hb⟩
    · obtain ⟨x, hx, hb⟩ := Option.map_eq_some_iff.1 hlast
      rw [← hb]
      exact (lastAt_eq_some_iff.1 hx).1
    · split at hb
      · next hq => rw [← Option.some.inj hb, hq]; rfl
      · cases hb
  refine List.pairwise_map.2 ((layOut host ssh xs).bindings.ascending.imp_of_mem fun ha hb h => ?_)
  rwa [filed ha, filed hb]

/-- Container ports are exposed in the order of the first services on them. -/
theorem exposed_layOut (host : String) (ssh : UInt16) (xs : List Placement) :
    (layOut host ssh xs).exposed = (xs.map Placement.containerPort).eraseDups := by
  induction xs using List.reverseRecOn with
  | nil => rfl
  | append_singleton xs x ih =>
    rw [layOut_concat, exposed_place, ih, List.map_append, List.map_singleton, List.eraseDups_append]
    generalize xs.map Placement.containerPort = qs
    by_cases hx : x.containerPort ∈ qs <;> simp [hx, List.removeAll, List.eraseDups_cons]

theorem nodup_exposed_layOut (host : String) (ssh : UInt16) (xs : List Placement) :
    (layOut host ssh xs).exposed.Nodup := by
  induction xs using List.reverseRecOn with
  | nil => exact .nil
  | append_singleton xs x ih =>
    rw [layOut_concat, exposed_place]
    split
    · exact ih
    · next hx =>
      refine List.nodup_append.2 ⟨ih, List.pairwise_singleton .., ?_⟩
      rintro q hq _ hx' rfl
      rw [List.mem_singleton.1 hx'] at hq
      exact hx (List.contains_iff_mem.2 hq)

/-- A host port that a layout keeps apart is that of the last service of its kind. -/
theorem kept_layOut (kept : Plan → Option UInt16) {kind : Demand → Bool} (first : kept (ofSsh host ssh) = none)
    (step : ∀ p x, kept (place p x) = if kind x.demand then some x.hostPort else kept p) (xs : List Placement) :
    kept (layOut host ssh xs) = (xs.reverse.find? (kind ·.demand)).map (·.hostPort) := by
  induction xs using List.reverseRecOn with
  | nil => exact first
  | append_singleton xs x ih =>
    rw [layOut_concat, step, ih, List.reverse_append, List.reverse_singleton, List.singleton_append, List.find?_cons]
    cases kind x.demand <;> rfl

theorem kept_eq_none (kept : Plan → Option UInt16) {kind : Demand → Bool} (first : kept (ofSsh host ssh) = none)
    (step : ∀ p x, kept (place p x) = if kind x.demand then some x.hostPort else kept p)
    (hk : ∀ x ∈ xs, ¬ kind x.demand) : kept (layOut host ssh xs) = none := by
  rw [kept_layOut kept first step, Option.map_eq_none_iff, List.find?_eq_none]
  exact fun x hx => hk x (List.mem_reverse.1 hx)

/-- If a service is the only one of its kind and on its container port, it lasts, with the host port kept apart. -/
theorem exists_kept (kept : Plan → Option UInt16) {kind : Demand → Bool} (first : kept (ofSsh host ssh) = none)
    (step : ∀ p x, kept (place p x) = if kind x.demand then some x.hostPort else kept p) {d : Demand}
    (hd : ∃ port, ⟨d, port⟩ ∈ xs) (hk : kind d)
    (only : ∀ x ∈ xs, kind x.demand ∨ x.containerPort = d.containerPort → x.demand = d) :
    ∃ port, kept (layOut host ssh xs) = some port ∧ Lasts xs ⟨d, port⟩ := by
  obtain ⟨port, hport⟩ := hd
  obtain ⟨y, hy, hyd⟩ := exists_lasts hport
  obtain rfl : y.demand = d := only y hy.mem (.inr hyd)
  have hsame : xs.reverse.find? (kind ·.demand) = lastAt xs y.containerPort := by
    refine List.find?_congr fun x hx => ?_
    have only := only x (List.mem_reverse.1 hx)
    rw [Bool.eq_iff_iff, decide_eq_true_iff]
    constructor
    · intro hx'
      exact congrArg Demand.containerPort (only (.inl hx'))
    · intro hx'
      rw [only (.inr hx')]
      exact hk
  refine ⟨y.hostPort, ?_, hy⟩
  rw [kept_layOut kept first step, hsame, show lastAt xs y.containerPort = some y from hy]
  rfl

end Layout

end DevEnv.Plan
