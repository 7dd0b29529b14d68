import DevEnv.Plan
import DevEnv.Proofs.SortedMap

/-! The layout of a new environment: which service each of its bindings leads to, and how it is reached.
No exposure takes over the binding of SSH, of Jupyter or of RStudio, since their ports are reserved. -/
namespace DevEnv

/-- Bindings lead from a host port to SSH, and no binding leads there from another one. -/
structure Container.ReachedAt (bindings : List Container.Binding) (port : UInt16) : Prop where
  bound : ∃ b ∈ bindings, b.containerPort = sshPort
  only : ∀ b ∈ bindings, b.containerPort = sshPort → b.hostPort = port

theorem Container.ReachedAt.unique {bindings : List Container.Binding} {port port' : UInt16}
    (h : ReachedAt bindings port) (h' : ReachedAt bindings port') : port = port' := by
  obtain ⟨b, hb, hs⟩ := h.bound
  rw [← h.only b hb hs, ← h'.only b hb hs]

private theorem eq_error_of_map {α β ε : Type} {x : Except ε α} {f : α → β} {e : ε} (h : f <$> x = .error e) :
    x = .error e := by
  cases x with
  | error e => cases h; rfl
  | ok a => cases h

private theorem exists_of_mapM_eq_error {α β ε : Type} {f : α → Except ε β} {l : List α} {e : ε}
    (h : l.mapM f = .error e) : ∃ a ∈ l, f a = .error e := by
  induction l with
  | nil => cases h
  | cons a l ih =>
    simp only [List.mapM_cons, bind_pure_comp] at h
    cases ha : f a with
    | error x =>
      rw [ha] at h
      cases h
      exact ⟨a, List.mem_cons_self, ha⟩
    | ok b =>
      rw [ha] at h
      obtain ⟨a', ha', he⟩ := ih (eq_error_of_map h)
      exact ⟨a', List.mem_cons_of_mem _ ha', he⟩

/-- Mounts fail by nothing but an option that cannot be read. -/
theorem Container.kind_of_mounts {options : List String} {g : Graph} {context : String} {e : Error}
    (h : Container.mounts options g context = .error e) : e.kind = .invalid := by
  unfold Container.mounts at h
  rw [bind_pure_comp] at h
  obtain ⟨option, _, ho⟩ := exists_of_mapM_eq_error (eq_error_of_map h)
  split at ho
  · cases ho
  · cases ho
    rfl

namespace Plan

/-- Every binding is filed under its own container port, that of SSH with a given port and address. -/
structure BindsSsh (p : Plan) (host : String) (port : UInt16) : Prop where
  filed : ∀ {q b}, p.bindings.get? q = some b → b.containerPort = q
  ssh : p.bindings.get? sshPort = some (.tcp sshPort host port)

variable {p : Plan} {host : String} {port : UInt16}

theorem BindsSsh.reachedAt (h : p.BindsSsh host port) : Container.ReachedAt p.bindings.values port where
  bound := ⟨_, SortedMap.mem_values.2 ⟨_, h.ssh⟩, rfl⟩
  only b hb hs := by
    obtain ⟨q, hq⟩ := SortedMap.mem_values.1 hb
    rw [← h.filed hq, hs, h.ssh] at hq
    cases hq
    rfl

theorem get?_ofSsh (host : String) (port q : UInt16) : (ofSsh host port).bindings.get? q =
    if q = sshPort then some (.tcp sshPort host port) else none :=
  SortedMap.get?_insert ∅ sshPort q _

theorem get?_addService (p : Plan) (name : String) (containerPort : UInt16) (hostIp : String)
    (hostPort q : UInt16) : (p.addService name containerPort hostIp hostPort).bindings.get? q =
      if q = containerPort then some (.tcp containerPort hostIp hostPort) else p.bindings.get? q :=
  SortedMap.get?_insert _ _ _ _

theorem bindsSsh_ofSsh (host : String) (port : UInt16) : (ofSsh host port).BindsSsh host port := by
  refine ⟨fun {q b} h => ?_, ?_⟩
  · rw [get?_ofSsh] at h
    split at h
    · next hq =>
      cases h
      exact hq.symm
    · cases h
  · rw [get?_ofSsh, if_pos rfl]

theorem BindsSsh.addService {name hostIp : String} {containerPort hostPort : UInt16}
    (h : p.BindsSsh host port) (hc : containerPort ≠ sshPort) :
    (p.addService name containerPort hostIp hostPort).BindsSsh host port := by
  refine ⟨fun {q b} hb => ?_, ?_⟩
  · rw [get?_addService] at hb
    split at hb
    · next hq =>
      cases hb
      exact hq.symm
    · exact h.filed hb
  · rw [get?_addService, if_neg hc.symm]
    exact h.ssh

/-- A layout of services that were declared one after the other, each by its container port and name. -/
structure Serves (p : Plan) (host : String) (port : UInt16) (declared : List (UInt16 × String)) : Prop
    extends BindsSsh p host port where
  /-- A binding leads to the service declared last for its container port. -/
  named : ∀ {q b}, p.bindings.get? q = some b →
    ∃ name, declared.reverse.lookup q = some name ∧ ⟨name, b.hostPort⟩ ∈ p.services

theorem serves_ofSsh (host : String) (port : UInt16) :
    (ofSsh host port).Serves host port [(sshPort, sshService)] where
  toBindsSsh := bindsSsh_ofSsh host port
  named {q b} h := by
    rw [get?_ofSsh] at h
    split at h
    · next hq =>
      cases h
      exact ⟨sshService, by rw [hq]; rfl, List.mem_singleton_self _⟩
    · cases h

theorem Serves.addService {declared : List (UInt16 × String)} {name hostIp : String}
    {containerPort hostPort : UInt16} (h : p.Serves host port declared) (hc : containerPort ≠ sshPort) :
    (p.addService name containerPort hostIp hostPort).Serves host port (declared ++ [(containerPort, name)]) where
  toBindsSsh := h.toBindsSsh.addService hc
  named {q b} hb := by
    rw [get?_addService] at hb
    rw [List.reverse_append, List.reverse_singleton, List.singleton_append, List.lookup_cons]
    split at hb
    · next hq =>
      cases hb
      exact ⟨name, by simp [hq], List.mem_append_right _ (List.mem_singleton_self _)⟩
    · next hq =>
      obtain ⟨other, ho, hm⟩ := h.named hb
      exact ⟨other, by rwa [beq_eq_false_iff_ne.2 hq], List.mem_append_left _ hm⟩

/-- A service is granted a host port exactly if it is declared, the one that is bound to its container port. -/
structure Grants (bindings : SortedMap UInt16 Container.Binding) (containerPort : UInt16) (declared : Bool)
    (granted : Option UInt16) : Prop where
  isSome : granted.isSome = declared
  bound : ∀ hostPort, granted = some hostPort → ∃ b, bindings.get? containerPort = some b ∧ b.hostPort = hostPort

theorem grants_none (bindings : SortedMap UInt16 Container.Binding) (containerPort : UInt16) :
    Grants bindings containerPort false none := ⟨rfl, nofun⟩

theorem grants_addService (p : Plan) (name hostIp : String) (containerPort hostPort : UInt16) :
    Grants (p.addService name containerPort hostIp hostPort).bindings containerPort true (some hostPort) := by
  refine ⟨rfl, fun _ h => ⟨_, (get?_addService ..).trans (if_pos rfl), ?_⟩⟩
  cases h
  rfl

theorem Grants.addService {containerPort other : UInt16} {declared : Bool} {granted : Option UInt16}
    (h : Grants p.bindings containerPort declared granted) {name hostIp : String} {hostPort : UInt16}
    (hc : declared → other ≠ containerPort) :
    Grants (p.addService name other hostIp hostPort).bindings containerPort declared granted := by
  refine ⟨h.isSome, fun port hp => ?_⟩
  have hd : declared = true := by rw [← h.isSome, hp]; rfl
  rw [get?_addService, if_neg (hc hd).symm]
  exact h.bound port hp

/-- A container port that no reserved service takes. -/
structure Unreserved (containerPort : UInt16) (hasJupyter hasRstudio : Bool) : Prop where
  ssh : containerPort ≠ sshPort
  jupyter : hasJupyter → containerPort ≠ jupyterPort
  rstudio : hasRstudio → containerPort ≠ rstudioPort

/-- A layout of declared services that records the host ports of the two with an address of their own. -/
structure Lays (p : Plan) (host : String) (port : UInt16) (declared : List (UInt16 × String))
    (hasJupyter hasRstudio : Bool) : Prop extends Serves p host port declared where
  jupyter : Grants p.bindings jupyterPort hasJupyter p.jupyter
  rstudio : Grants p.bindings rstudioPort hasRstudio p.rstudio

section Lays
variable {declared : List (UInt16 × String)} {hasJupyter hasRstudio : Bool}

theorem lays_ofSsh (host : String) (port : UInt16) :
    (ofSsh host port).Lays host port [(sshPort, sshService)] false false :=
  ⟨serves_ofSsh host port, grants_none .., grants_none ..⟩

theorem Lays.addService {name hostIp : String} {containerPort hostPort : UInt16}
    (h : p.Lays host port declared hasJupyter hasRstudio)
    (hc : Unreserved containerPort hasJupyter hasRstudio) :
    (p.addService name containerPort hostIp hostPort).Lays host port (declared ++ [(containerPort, name)])
      hasJupyter hasRstudio :=
  ⟨h.toServes.addService hc.ssh, h.jupyter.addService hc.jupyter, h.rstudio.addService hc.rstudio⟩

theorem Lays.addJupyter (h : p.Lays host port declared false hasRstudio) (hostPort : UInt16) :
    ({ p.addService jupyterService jupyterPort Label.localhost hostPort with
        jupyter := some hostPort } : Plan).Lays host port (declared ++ [(jupyterPort, jupyterService)])
      true hasRstudio := by
  have hs : (p.addService jupyterService jupyterPort Label.localhost hostPort).Lays host port
      (declared ++ [(jupyterPort, jupyterService)]) false hasRstudio :=
    h.addService ⟨by decide, nofun, fun _ => by decide⟩
  exact ⟨⟨⟨hs.filed, hs.ssh⟩, hs.named⟩, p.grants_addService jupyterService .., hs.rstudio⟩

theorem Lays.addRstudio (h : p.Lays host port declared hasJupyter false) (hostPort : UInt16) :
    ({ p.addService rstudioService rstudioPort Label.localhost hostPort with
        rstudio := some hostPort } : Plan).Lays host port (declared ++ [(rstudioPort, rstudioService)])
      hasJupyter true := by
  have hs : (p.addService rstudioService rstudioPort Label.localhost hostPort).Lays host port
      (declared ++ [(rstudioPort, rstudioService)]) hasJupyter false :=
    h.addService ⟨by decide, fun _ => by decide, nofun⟩
  exact ⟨⟨⟨hs.filed, hs.ssh⟩, hs.named⟩, hs.jupyter, p.grants_addService rstudioService ..⟩

end Lays

theorem kind_of_checkReserved {g : Graph} {e : Error} (h : checkReserved g = .error e) :
    e.kind = .invalid := by
  unfold checkReserved at h
  split at h
  · cases h
    rfl
  · cases h

/-- Where no exposure is refused, none takes a reserved port. -/
theorem ne_of_checkReserved {g : Graph} (h : checkReserved g = .ok ()) {e : Graph.Exposure}
    (he : e ∈ g.exposures) {q : UInt16} {service : String} (hq : (q, service) ∈ reserved g) :
    e.containerPort ≠ q := by
  unfold checkReserved at h
  split at h
  · cases h
  · next hn =>
    have hnone : (reserved g).lookup e.containerPort = none := by
      simpa using List.findSome?_eq_none_iff.1 hn e he
    exact bne_iff_ne.1 (List.lookup_eq_none_iff.1 hnone _ hq)

theorem unreserved_of_checkReserved {g : Graph} (h : checkReserved g = .ok ()) {e : Graph.Exposure}
    (he : e ∈ g.exposures) : Unreserved e.containerPort g.jupyter.isSome g.rstudio := by
  have hne {q : UInt16} (service : String) (hq : (q, service) ∈ reserved g) : e.containerPort ≠ q :=
    ne_of_checkReserved h he hq
  refine ⟨hne sshService ?_, fun hj => hne jupyterService ?_, fun hr => hne rstudioService ?_⟩
  · simp [reserved]
  · simp [reserved, hj]
  · simp [reserved, hr]

/-- The services that a graph declares, by container port: those that are reserved, then its exposures. -/
def declared (g : Graph) : List (UInt16 × String) :=
  reserved g ++ g.exposures.map fun e => (e.containerPort, exposureName e)

/-- The service behind a container port: of those declared for it the last. -/
def serviceAt? (g : Graph) (q : UInt16) : Option String := (declared g).reverse.lookup q

/-- A layout of all that a graph declares, without a conflict over reserved ports. -/
structure LaysOut (p : Plan) (g : Graph) (host : String) (port : UInt16) : Prop
    extends Lays p host port (declared g) g.jupyter.isSome g.rstudio where
  accepted : checkReserved g = .ok ()

/-- A reserved port leads to the service that it is reserved for. -/
theorem serviceAt?_reserved {g : Graph} (h : checkReserved g = .ok ()) {q : UInt16} {service : String}
    (hq : (q, service) ∈ reserved g) : serviceAt? g q = some service := by
  have hnodup : ((reserved g).reverse.map (·.1)).Nodup := by
    unfold reserved
    cases g.jupyter.isSome <;> cases g.rstudio <;> decide
  have hreserved : (reserved g).reverse.lookup q = some service :=
    SortedMap.lookup_of_mem hnodup (List.mem_reverse.2 hq)
  have hexposures : (g.exposures.map fun e => (e.containerPort, exposureName e)).reverse.lookup q = none := by
    refine SortedMap.lookup_eq_none_of_notMem fun hm => ?_
    obtain ⟨e, he, hport⟩ : ∃ e ∈ g.exposures, e.containerPort = q := by simpa using hm
    exact ne_of_checkReserved h he hq hport
  rw [serviceAt?, declared, List.reverse_append, List.lookup_append, hexposures, Option.none_or, hreserved]

end Plan
end DevEnv
