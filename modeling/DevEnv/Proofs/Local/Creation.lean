import DevEnv.Proofs.Local.Sequence

/-! What a start leaves behind when it ends well or for want of time: one new container, made as the options,
the graph and the host's ports have it, and nothing else changed. -/
namespace DevEnv.Local
open DevEnv.Action
open DevEnv.Runtime (Memory)
open DevEnv.Runtime.Memory (Entry Reachable Sound)

variable {τ : Type} {host : (q : Host.Query) → τ → q.Answer × τ} {h h' : τ} {m m' m₁ : Memory}
  {p : Engine.Patience} {o : Options} {r : Except Error Started}

/-- The container that a start from one runtime has created in another one, and what the start says of it. -/
structure Creation (host : (q : Host.Query) → τ → q.Answer × τ) (o : Options) (h : τ) (m m' : Memory)
    (r : Except Error Started) (a : Resolved) (ssh : UInt16) (plan : Plan) (k : Entry) : Prop where
  /-- The image, the devices and the graph, given or recorded, are accepted. -/
  resolved : Resolves m o a
  gpu : k.spec.devices ≠ [] → offersGpu m.info
  /-- The ports are pinned or those that the host has free. -/
  ports : ∃ h₁ h₂, Ends (beside host) (Plan.pick freePort o.sshPort) (h, m) (.ok ssh) (h₁, m) ∧
    Ends (beside host) (Plan.make freePort a.graph o.sshHost ssh)
      (h₁, { m with containers := m.containers.erase o.name })
      (.ok plan) (h₂, { m with containers := m.containers.erase o.name })
  spec : ∃ mounts, Container.mounts a.mountOptions a.graph o.buildContext = .ok mounts ∧ k.spec =
    { name := o.name
      image := a.image
      workdir := Naming.workdir o.buildContext
      labels := Label.ofStart o.name a.graph (!a.devices.isEmpty) ssh plan.jupyter plan.rstudio
      exposed := plan.exposed
      bindings := plan.bindings.values
      mounts
      restartPolicy := "always"
      sharedMemory := if o.sharedMemory = 0 then none else some (o.sharedMemory.toUInt64 * 1048576)
      devices := a.devices
      cpus := o.cpus
      cpuSet := o.cpuSet
      memory := o.memory }
  /-- The bytes of shared memory do not overflow. -/
  sharedMemory : ∀ n, k.spec.sharedMemory = some n → n.toNat = o.sharedMemory.toNat * 1048576
  filed : m'.containers.get? o.name = some k
  sole : ∀ n x, m'.containers.get? n = some x → x.container.name = o.name → x = k
  /-- The container takes over the labels of its image that its own ones do not replace. -/
  created : k.container.name = o.name ∧ k.container.image = a.image ∧ k.container.bindings = k.spec.bindings ∧
    k.container.labels = ((m.images.get? a.image).elim ∅ (·.labels)).overlay k.spec.labels
  fresh : ∀ n x, m.containers.get? n = some x → x.container.id ≠ k.container.id
  others : ∀ n, n ≠ o.name → m'.containers.get? n = m.containers.get? n
  images : m'.images = m.images
  started : ∀ s, r = .ok s → k.container.status = .running ∧
    Container.ReachedAt k.container.bindings s.sshPort ∧
    s = { sshPort := ssh, address := k.container.address, name := o.name, ports := plan.services }

private theorem toNat_mebibytes (n : UInt32) : (n.toUInt64 * mebibyte).toNat = n.toNat * 1048576 := by
  have hn := n.toNat_lt
  rw [UInt64.toNat_mul, UInt32.toNat_toUInt64, show mebibyte.toNat = 1048576 from rfl]
  omega

/-- A start that succeeds, runs out of time or is called off has created the one container of its name. -/
theorem start_creates (hm : Reachable m)
    (hid : ∀ n x, m.containers.get? n = some x → x.container.id.text ≠ o.name)
    (he : Ends (beside host) (start p o) (h, m) r (h', m')) (hr : ∀ e, r = .error e → e.kind = .timeout) :
    ∃ a ssh plan k, Creation host o h m m' r a ssh plan k := by
  have hs := hm.sound
  cases ends_start hs he with
  | refused _ hk => exact absurd (hr _ rfl) hk
  | portless _ => cases hr _ rfl
  | spared _ hc =>
    cases hc with
    | live _ _ _ => cases hr _ rfl
    | stuck _ _ => cases hr _ rfl
  | unplanned _ _ hf => exact absurd (hr _ rfl) hf.kind_ne_timeout
  | @planned a ssh mounts plan h₁ h₂ m₁ _ _ ha hp hc hmounts hplan hb hup =>
    have hu := Memory.undisputed_of_no_id hid
    obtain ⟨k, hk, rfl, -, hreports⟩ :=
      hup.exists_created (hc.get?_eq_none hs hu) fun n x hx => hid n x (hc.get?_of_get? hx)
    obtain rfl := hc.eq_erase hs hu
    have hspec : k.spec = specOf o a.image a.graph a.devices ssh mounts plan := hk.spec
    have hname : k.container.name = o.name := hk.name
    have hid' : k.container.id = ⟨Memory.hexId m.nextId⟩ := hk.id
    have hbindings : k.container.bindings = k.spec.bindings :=
      hk.bindings.trans (congrArg Container.Spec.bindings hspec).symm
    have hlabels : k.container.labels = ((m.images.get? a.image).elim ∅ (·.labels)).overlay k.spec.labels := by
      rw [hspec]
      exact hk.labels
    have hget (n : String) :
        (({ m with containers := m.containers.erase o.name } : Memory).put k).containers.get? n =
          if n = o.name then some k else m.containers.get? n := by
      simp only [Memory.put, hname, SortedMap.insert_erase, SortedMap.get?_insert]
    have hfiled := (hget o.name).trans (if_pos rfl)
    refine ⟨a, ssh, plan, k, ha, fun hd => ?_, ⟨h₁, h₂, hp, hplan⟩, ⟨mounts, hmounts, hspec⟩,
      fun n hn => ?_, hfiled, fun n x hx hxn => ?_,
      ⟨hname, hk.image, hbindings, hlabels⟩,
      fun n x hx hxk => ?_, fun n hn => (hget n).trans (if_neg hn), rfl, ?_⟩
    · rw [hspec] at hd
      exact ha.offered hd
    · rw [hspec] at hn
      simp only [specOf, Option.ite_none_left_eq_some, Option.some.injEq] at hn
      rw [← hn.2, toNat_mebibytes]
    · have hx' := (hget n).symm.trans hx
      split at hx'
      · exact (Option.some.inj hx').symm
      · next hne => exact absurd ((hs.filed hx').symm.trans hxn) hne
    · exact hs.id_ne_next hx (hxk.trans hid')
    · rintro s rfl
      obtain ⟨hrunning, rfl⟩ := hreports
      refine ⟨hrunning, ?_, rfl⟩
      rw [show k.container.bindings = plan.bindings.values from hk.bindings]
      exact hb.reachedAt

/-- A start with a notebook on a free port and a service on a pinned one. -/
def tensorboard : Options :=
  { image := some "mnist:dev", name := "mnist", buildContext := "/home/me/mnist", sharedMemory := 64
    source := .docker
      (some { jupyter := some {}, exposures := [⟨6006, 16006, "tensorboard", none⟩] }) ["/data:/data"] }

/-- A runtime with an older container of the same name. -/
def outdated : Memory := (Memory.answer (.create { name := "mnist", image := "mnist:old" }) {}).2

theorem start_creates_tensorboard : ∃ m' a ssh plan k, Creation stillHost tensorboard () outdated m'
    (.ok { sshPort := 40001, address := "172.17.0.2", name := "mnist"
           ports := [⟨"ssh", 40001⟩, ⟨"jupyter", 40001⟩, ⟨"tensorboard", 16006⟩] }) a ssh plan k := by
  have hm : Reachable outdated := .call .empty _
  have he : Ends (beside stillHost) (start ⟨⟨0⟩, 10⟩ tensorboard) ((), outdated) _ ((), _) := rfl
  exact ⟨_, start_creates hm (hm.sound.id_ne (by decide)) he nofun⟩

end DevEnv.Local
