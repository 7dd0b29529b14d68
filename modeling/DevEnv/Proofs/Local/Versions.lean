import DevEnv.Proofs.Local.Views
import DevEnv.Proofs.Text.Split

/-! Images whose labels are of a later version than this one. Views of them are refused, and so is a start that
needs their graph; an environment started with a graph of its own is shown all the same. -/
namespace DevEnv.Local
open DevEnv.Action
open DevEnv.Runtime (Call Memory)
open DevEnv.Runtime.Memory (Entry Reachable Sound Undisputed)

variable {τ α : Type} {host : (q : Host.Query) → τ → q.Answer × τ} {h h' : τ} {m m' : Memory}

section Listings

/-- Objects of this library are listed, and no others. -/
theorem passes_ownFilter (labels : Labels) : Memory.passes ownFilter labels = Label.isOwned labels := by
  have hcut : Text.cut '=' ownFilter = some (Label.vendorKey, Label.vendor) := by
    rw [Text.cut_eq_some_iff]
    decide
  rw [Memory.passes, hcut]
  rfl

theorem toOption_eq_some_iff {ε β : Type} {x : Except ε β} {b : β} : x.toOption = some b ↔ x = .ok b := by
  cases x <;> simp [Except.toOption]

theorem mem_readable {ε β : Type} {results : List (Except ε β)} {b : β} : b ∈ readable results ↔ .ok b ∈ results := by
  simp only [readable, List.mem_filterMap, toOption_eq_some_iff, exists_eq_right]

/-- The environments of a listing. -/
def listed (m : Memory) : List Environment := readable ((m.list ownFilter).map Environment.ofContainer)

theorem ends_environments : Ends (beside host) environments (h, m) (.ok (listed m)) (h, m) :=
  ends_bind_ok.2 ⟨_, _, ends_call.2 ⟨rfl, rfl⟩, ends_pure.2 ⟨rfl, rfl⟩⟩

/-- The environments listed are those that can be read off the containers with this library's mark. -/
theorem mem_listed {e : Environment} : e ∈ listed m ↔ ∃ n k, m.containers.get? n = some k ∧
    Label.isOwned k.container.labels ∧ Environment.ofContainer k.container = .ok e := by
  rw [listed, mem_readable, List.mem_map]
  constructor
  · rintro ⟨c, hc, he⟩
    obtain ⟨hc, ho⟩ := List.mem_filter.1 hc
    obtain ⟨k, hk, rfl⟩ := List.mem_map.1 hc
    obtain ⟨n, hn⟩ := SortedMap.mem_values.1 hk
    exact ⟨n, k, hn, passes_ownFilter _ ▸ ho, he⟩
  · rintro ⟨n, k, hn, ho, he⟩
    refine ⟨k.container, List.mem_filter.2 ⟨List.mem_map.2 ⟨k, SortedMap.mem_values.2 ⟨n, hn⟩, rfl⟩, ?_⟩, he⟩
    rw [passes_ownFilter]
    exact ho

end Listings

section Images
variable {i : StoredImage} {reference name : String} {version : Nat}

theorem ends_storedImage_ok {x : StoredImage} {w : τ × Memory} :
    Ends (beside host) (storedImage name) (h, m) (.ok x) w ↔
      (m.listImages ownFilter).find? (·.answersTo name) = some x ∧ w = (h, m) := by
  unfold storedImage
  rw [ends_bind_ok]
  constructor
  · rintro ⟨xs, w', hlist, hx⟩
    obtain ⟨hxs, rfl⟩ := ends_call.1 hlist
    cases hxs
    split at hx
    · next y hy =>
      obtain ⟨⟨⟩, rfl⟩ := ends_pure.1 hx
      exact ⟨hy, rfl⟩
    · next hnone => exact absurd (ends_throw.1 hx).1 nofun
  · rintro ⟨hx, rfl⟩
    refine ⟨_, _, ends_call.2 ⟨rfl, rfl⟩, ?_⟩
    rw [show (m.listImages ownFilter).find? (·.answersTo name) = some x from hx]
    exact ends_pure.2 ⟨rfl, rfl⟩

/-- Nothing is shown of an image: where it is looked up all queries end in an error, and no view is one of it. -/
structure Withheld (host : (q : Host.Query) → τ → q.Answer × τ) (h : τ) (m : Memory) (i : StoredImage)
    (e : Error) : Prop where
  image : ∀ name, Ends (beside host) (storedImage name) (h, m) (.ok i) (h, m) →
    Ends (beside host) (image name) (h, m) (.error e) (h, m)
  dependency : ∀ name, Ends (beside host) (storedImage name) (h, m) (.ok i) (h, m) →
    Ends (beside host) (imageDependency name) (h, m) (.error e) (h, m)
  graph : ∀ name, Ends (beside host) (storedImage name) (h, m) (.ok i) (h, m) →
    Ends (beside host) (imageGraph name) (h, m) (.error e) (h, m)
  viewed : ∀ name v w, Ends (beside host) (Local.image name) (h, m) (.ok v) w → v.id ≠ i.id
  listed : ∃ vs, Ends (beside host) images (h, m) (.ok vs) (h, m) ∧ ∀ v ∈ vs, v.id ≠ i.id

theorem ofStored_of_newer (hv : Label.Newer i.labels version) :
    Image.ofStored i = .error (.unsupportedVersion version) := by
  rw [Image.ofStored, hv.manifest_eq]
  rfl

theorem id_of_ofStored {x : StoredImage} {v : Image} (h : Image.ofStored x = .ok v) : v.id = x.id := by
  unfold Image.ofStored at h
  cases hr : Label.manifest x.labels with
  | error e =>
    rw [hr] at h
    cases h
  | ok recorded =>
    rw [hr] at h
    cases h
    rfl

/-- A view that can be read is of another image. -/
private theorem id_ne_of_newer (hm : Reachable m) (hi : m.images.get? reference = some i)
    (hv : Label.Newer i.labels version) {x : StoredImage} {v : Image} (hx : x ∈ m.listImages ownFilter)
    (hr : Image.ofStored x = .ok v) : v.id ≠ i.id := by
  obtain ⟨r, hget⟩ := SortedMap.mem_values.1 (List.mem_filter.1 hx).1
  intro hid
  have hsame : r = reference := hm.catalogued.distinct hget hi ((id_of_ofStored hr).symm.trans hid)
  obtain rfl : x = i := Option.some.inj (hget.symm.trans (hsame ▸ hi))
  rw [ofStored_of_newer hv] at hr
  cases hr

theorem withheld_of_newer (hm : Reachable m) (hi : m.images.get? reference = some i)
    (hv : Label.Newer i.labels version) : Withheld host h m i (.label (.unsupportedVersion version)) := by
  have himage (name : String) (hl : Ends (beside host) (storedImage name) (h, m) (.ok i) (h, m)) :
      Ends (beside host) (image name) (h, m) (.error (.label (.unsupportedVersion version))) (h, m) := by
    refine ends_bind.2 (.inl ⟨_, _, hl, ends_ofExcept.2 ⟨?_, rfl⟩⟩)
    rw [ofStored_of_newer hv]
    rfl
  refine ⟨himage, fun name hl => ?_, fun name hl => ?_, fun name v w he => ?_, ?_⟩
  · exact (himage name hl).map (·.manifest.dependency)
  · refine ends_bind.2 (.inl ⟨_, _, hl, ends_ofExcept.2 ⟨?_, rfl⟩⟩)
    rw [hv.graph_eq]
    rfl
  · obtain ⟨x, _, hl, hr⟩ := ends_bind_ok.1 he
    exact id_ne_of_newer hm hi hv (List.mem_of_find?_eq_some (ends_storedImage_ok.1 hl).1) (ends_ofExcept_ok.1 hr).1
  · refine ⟨_, ends_bind_ok.2 ⟨_, _, ends_call.2 ⟨rfl, rfl⟩, ends_pure.2 ⟨rfl, rfl⟩⟩, fun v hmem => ?_⟩
    obtain ⟨x, hx, hr⟩ := List.mem_map.1 (mem_readable.1 hmem)
    exact id_ne_of_newer hm hi hv hx hr

end Images

section Environments
variable {k : Entry} {labels : Labels} {f : Label.Facts} {name : String}

/-- An environment as its container shows it, with what is recorded on its image. -/
def viewOf (c : Container) (labels : Labels) (f : Label.Facts) (recorded : Manifest) : Environment where
  name := c.name
  image := c.image
  status := c.status
  sshPort := f.sshPort
  jupyter := f.jupyter.or (labels.get? Label.jupyterKey)
  rstudio := f.rstudio.or (labels.get? Label.rstudioKey)
  manifest := { recorded with gpu := f.gpu || recorded.gpu }

theorem ofContainer_overlay {c : Container} (hc : c.labels = labels.overlay f.encode) :
    Environment.ofContainer c = (Label.manifest (Label.unversioned labels)).map (viewOf c labels f) := by
  rw [Environment.ofContainer, hc, Label.Facts.decode_overlay, Label.manifest_overlay_eq]
  cases Label.manifest (Label.unversioned labels) with
  | error e => rfl
  | ok recorded => rfl

/-- An environment is shown as its image's labels have it whatever version they say they are of: by a name that leads
to it its queries end in an error exactly if the labels cannot be read apart from that, and only then it is not
listed. -/
structure Shows (host : (q : Host.Query) → τ → q.Answer × τ) (h : τ) (m : Memory) (k : Entry) (labels : Labels)
    (f : Label.Facts) : Prop where
  environment : ∀ name, m.find? name = some k → Ends (beside host) (environment name) (h, m)
    (((Label.manifest (Label.unversioned labels)).map (viewOf k.advance.container labels f)).mapError .label)
    (h, m.put k.advance)
  dependency : ∀ name, m.find? name = some k → Ends (beside host) (dependency name) (h, m)
    (((Label.manifest (Label.unversioned labels)).map (·.dependency)).mapError .label) (h, m.put k.advance)
  ports : ∀ name, m.find? name = some k → Ends (beside host) (ports name) (h, m)
    (((Label.graph (Label.unversioned labels)).map fun g => k.container.bindings.map (named (serviceNames g))).mapError
      .label) (h, m.put k.advance)
  listed : ∃ es, Ends (beside host) environments (h, m) (.ok es) (h, m) ∧ ∀ e, e.name = k.container.name → (e ∈ es ↔
    ∃ recorded, Label.manifest (Label.unversioned labels) = .ok recorded ∧ e = viewOf k.container labels f recorded)

theorem name_of_ofContainer {c : Container} {e : Environment} (h : Environment.ofContainer c = .ok e) :
    e.name = c.name := by
  unfold Environment.ofContainer at h
  cases hd : Label.Facts.decode c.labels <;> cases hr : Label.manifest c.labels <;> rw [hd, hr] at h <;> cases h
  rfl

private theorem ends_ownContainer_overlay (hf : m.find? name = some k)
    (hl : k.container.labels = labels.overlay f.encode) :
    Ends (beside host) (ownContainer name) (h, m) (.ok k.advance.container) (h, m.put k.advance) := by
  refine ends_ownContainer_of_find? hf ?_
  rw [hl]
  exact Label.isOwned_overlay

private theorem ends_environment_overlay (hf : m.find? name = some k)
    (hl : k.container.labels = labels.overlay f.encode) : Ends (beside host) (environment name) (h, m)
      (((Label.manifest (Label.unversioned labels)).map (viewOf k.advance.container labels f)).mapError .label)
      (h, m.put k.advance) := by
  refine ends_bind.2 (.inl ⟨_, _, ends_ownContainer_overlay hf hl, ends_ofExcept.2 ⟨?_, rfl⟩⟩)
  rw [ofContainer_overlay (k.continues_advance.labels.trans hl)]

private theorem ends_dependency_overlay (hf : m.find? name = some k)
    (hl : k.container.labels = labels.overlay f.encode) : Ends (beside host) (dependency name) (h, m)
      (((Label.manifest (Label.unversioned labels)).map (·.dependency)).mapError .label) (h, m.put k.advance) := by
  have hends : Ends (beside host) (dependency name) (h, m) _ (h, m.put k.advance) :=
    (ends_environment_overlay hf hl).map (·.manifest.dependency)
  cases hr : Label.manifest (Label.unversioned labels) <;> rw [hr] at hends <;> exact hends

private theorem ends_ports_overlay (hf : m.find? name = some k)
    (hl : k.container.labels = labels.overlay f.encode) : Ends (beside host) (ports name) (h, m)
      (((Label.graph (Label.unversioned labels)).map fun g =>
        k.container.bindings.map (named (serviceNames g))).mapError .label) (h, m.put k.advance) := by
  have hgraph : Ends (beside host) (Action.ofExcept Error.label (Label.graph k.advance.container.labels))
      (h, m.put k.advance) ((Label.graph (Label.unversioned labels)).mapError .label) (h, m.put k.advance) := by
    rw [k.continues_advance.labels, hl, Label.graph_overlay_eq]
    exact ends_ofExcept.2 ⟨rfl, rfl⟩
  refine ends_bind.2 (.inl ⟨_, _, ends_ownContainer_overlay hf hl, ?_⟩)
  rw [← k.continues_advance.bindings]
  have hends := hgraph.map fun g => k.advance.container.bindings.map (named (serviceNames g))
  cases hr : Label.graph (Label.unversioned labels) <;> rw [hr] at hends <;> exact hends

private theorem ofContainer_eq_ok_iff {c : Container} (hl : c.labels = labels.overlay f.encode) {e : Environment} :
    Environment.ofContainer c = .ok e ↔
      ∃ recorded, Label.manifest (Label.unversioned labels) = .ok recorded ∧ e = viewOf c labels f recorded := by
  rw [ofContainer_overlay hl]
  cases Label.manifest (Label.unversioned labels) with
  | error e => simp [Except.map]
  | ok recorded => simp [Except.map, eq_comm]

theorem shows_of_labels (hm : Sound m) (hk : m.containers.get? name = some k)
    (hl : k.container.labels = labels.overlay f.encode) : Shows host h m k labels f := by
  refine ⟨fun _ hf => ends_environment_overlay hf hl, fun _ hf => ends_dependency_overlay hf hl,
    fun _ hf => ends_ports_overlay hf hl, _, ends_environments, fun e he => ?_⟩
  rw [mem_listed, ← ofContainer_eq_ok_iff hl]
  constructor
  · rintro ⟨n, x, hx, -, hex⟩
    have hn : n = name :=
      (hm.filed hx).symm.trans ((name_of_ofContainer hex).symm.trans (he.trans (hm.filed hk)))
    obtain rfl : x = k := Option.some.inj (hx.symm.trans (hn ▸ hk))
    exact hex
  · intro hex
    have howned : Label.isOwned k.container.labels = true := by
      rw [hl]
      exact Label.isOwned_overlay
    exact ⟨name, k, hk, howned, hex⟩

end Environments

section Start
variable {p : Engine.Patience} {o : Options} {r : Except Error Started} {i : StoredImage} {k : Entry}
  {reference n : String} {version : Nat}

/-- A container there is after a cleaning was there before. -/
theorem Cleaned.before (hm : Sound m) {name : String} {forced : Bool} {x : Except Error Unit}
    (hc : Cleaned m name forced x m') (hk : m'.containers.get? n = some k) :
    ∃ k', m.containers.get? n = some k' ∧ k'.Akin k := by
  have put {k₀ : Entry} (hf : m.find? name = some k₀) (hput : (m.put k₀.advance).containers.get? n = some k) :
      ∃ k', m.containers.get? n = some k' ∧ k'.Akin k :=
    (Memory.kin_put (hm.get?_of_find? hf) k₀.continues_advance.toAkin).before hput
  cases hc with
  | absent _ => exact ⟨k, hk, .refl k⟩
  | live hf _ _ => exact put hf hk
  | stuck hf _ => exact put hf hk
  | removed _ _ => exact ⟨k, SortedMap.get?_of_get?_erase hk, .refl k⟩

/-- The container that a start adds is made as the start was resolved, and the labels of its image are under its own. -/
theorem exists_of_new (hm : Sound m) (he : Ends (beside host) (start p o) (h, m) r (h', m'))
    (hk : m'.containers.get? n = some k)
    (hnew : ∀ n' x, m.containers.get? n' = some x → x.container.id ≠ k.container.id) :
    ∃ a ssh mounts plan, Resolves m o a ∧ n = o.name ∧
      k.spec = specOf o a.image a.graph a.devices ssh mounts plan ∧
      k.container.labels = (inherited m a.image).overlay k.spec.labels := by
  have absurd_of_old (hold : ∃ k', m.containers.get? n = some k' ∧ k'.Akin k) : False := by
    obtain ⟨k', hk', hakin⟩ := hold
    exact hnew n k' hk' hakin.id.symm
  cases ends_start hm he with
  | refused _ _ => exact absurd rfl (hnew n k hk)
  | portless _ => exact absurd rfl (hnew n k hk)
  | spared _ hc => exact (absurd_of_old (hc.before hm hk)).elim
  | unplanned _ hc _ => exact (absurd_of_old (hc.before hm hk)).elim
  | @planned a ssh mounts plan h₁ h₂ m₁ _ _ ha _ hc _ _ _ hup =>
    obtain ⟨y, hy, hakin⟩ | ⟨rfl, hakin⟩ := hup.origin rfl hk
    · exact (absurd_of_old ⟨y, hc.get?_of_get? hy, hakin⟩).elim
    · have hspec : k.spec = specOf o a.image a.graph a.devices ssh mounts plan := hakin.spec
      refine ⟨a, ssh, mounts, plan, ha, rfl, hspec, ?_⟩
      rw [hspec, inherited, ← hc.images_eq]
      exact hakin.labels

private theorem labels_of_start (hm : Sound m) (ho : o.image = some reference)
    (he : Ends (beside host) (start p o) (h, m) r (h', m')) (hk : m'.containers.get? n = some k)
    (hnew : ∀ n' x, m.containers.get? n' = some x → x.container.id ≠ k.container.id) :
    ∃ f : Label.Facts, f.name = o.name ∧ n = o.name ∧
      k.container.labels = (inherited m reference).overlay f.encode := by
  obtain ⟨a, ssh, mounts, plan, ha, hn, hspec, hl⟩ := exists_of_new hm he hk hnew
  refine ⟨.ofStart o.name a.graph (!a.devices.isEmpty) ssh plan.jupyter plan.rstudio, rfl, hn, ?_⟩
  rw [hl, hspec, ha.image_eq ho]
  rfl

/-- A start without a graph of its own needs that of the image. -/
private theorem not_resolves_of_newer (hi : m.inspectImage reference = .ok i) (hv : Label.Newer i.labels version)
    (ho : o.image = some reference) {mountOptions : List String} (hs : o.source = .docker none mountOptions)
    (a : Resolved) : ¬ Resolves m o a := by
  intro ha
  obtain ⟨given, hsource, hgraph⟩ := ha.source
  rw [hs] at hsource
  cases hsource
  obtain ⟨i', hi', recorded, hr, -⟩ := hgraph
  rw [ha.image_eq ho, hi] at hi'
  cases hi'
  rw [hv.graph_eq] at hr
  cases hr

private theorem refused_of_newer (hm : Sound m) (hi : m.inspectImage reference = .ok i)
    (hv : Label.Newer i.labels version) (ho : o.image = some reference) {mountOptions : List String}
    (hs : o.source = .docker none mountOptions) (he : Ends (beside host) (start p o) (h, m) r (h', m')) :
    (∃ e, r = .error e) ∧ m' = m := by
  have never (a : Resolved) : ¬ Resolves m o a := not_resolves_of_newer hi hv ho hs a
  cases ends_start hm he with
  | refused _ _ => exact ⟨⟨_, rfl⟩, rfl⟩
  | portless ha => exact absurd ha (never _)
  | spared ha _ => exact absurd ha (never _)
  | unplanned ha _ _ => exact absurd ha (never _)
  | planned ha _ _ _ _ _ _ => exact absurd ha (never _)

/-- Where labels of a later version are stopped: views of the image are, and starts that take its graph, but not
the views of an environment that was started with a graph of its own. -/
structure VersionGate (host : (q : Host.Query) → τ → q.Answer × τ) (h : τ) (m : Memory) (reference : String)
    (i : StoredImage) (version : Nat) : Prop where
  withheld : Withheld host h m i (.label (.unsupportedVersion version))
  refused : ∀ p o r h' m' mountOptions, o.image = some reference → o.source = .docker none mountOptions →
    Ends (beside host) (start p o) (h, m) r (h', m') → (∃ e, r = .error e) ∧ m' = m
  /-- Whatever happens after the start, as long as its container is there. Its name leads to it unless another
  container has that name as its identifier. -/
  overlaid : ∀ p o r h' m' n k, o.image = some reference → Ends (beside host) (start p o) (h, m) r (h', m') →
    m'.containers.get? n = some k → (∀ n' x, m.containers.get? n' = some x → x.container.id ≠ k.container.id) →
    ∃ f : Label.Facts, f.name = o.name ∧ ∀ ops n' k', (Memory.after ops m').containers.get? n' = some k' →
      k'.container.id = k.container.id → n' = o.name ∧
        (Undisputed (Memory.after ops m') o.name → (Memory.after ops m').find? o.name = some k') ∧
        ∀ h'', Shows host h'' (Memory.after ops m') k' (inherited m reference) f

/-- Labels of a later version are refused, except where an environment's own labels have replaced the version. -/
theorem versionGate_of_newer (host : (q : Host.Query) → τ → q.Answer × τ) (h : τ) (hm : Reachable m)
    (hi : m.inspectImage reference = .ok i) (hv : Label.Newer i.labels version) :
    VersionGate host h m reference i version := by
  refine ⟨?_, ?_, ?_⟩
  · obtain ⟨r, hr⟩ : ∃ r, m.images.get? r = some i :=
      (Memory.filed_of_inspectImage hi).elim (fun hget => ⟨_, hget⟩) fun hget => hget.2
    exact withheld_of_newer hm hr hv
  · intro p o r h' m' mountOptions ho hs he
    exact refused_of_newer hm.sound hi hv ho hs he
  · intro p o r h' m' n k ho he hk hnew
    have hm' : Reachable m' := reachable_of_ends hm he
    obtain ⟨f, hf, rfl, hl⟩ := labels_of_start hm.sound ho he hk hnew
    refine ⟨f, hf, fun ops n' k' hk' hid => ?_⟩
    have hakin : k.Akin k' := Memory.akin_of_after hm' hk hk' hid
    have hlater : Sound (Memory.after ops m') := (hm'.after ops).sound
    obtain rfl : n' = o.name := (hlater.filed hk').symm.trans (hakin.name.trans (hm'.sound.filed hk))
    exact ⟨rfl, fun hu => hu.find?_of_get? hk', fun h'' => shows_of_labels hlater hk' (hakin.labels.trans hl)⟩

/-- A runtime with an image whose labels are of the version after this one. -/
def laterMemory : Memory :=
  ({} : Memory).addImage "mnist:dev"
    (.ofList [(Label.vendorKey, Label.vendor), (Label.versionKey, "2"), (Label.cudaKey, "11.8")]) default

def laterImage : StoredImage := (laterMemory.images.get? "mnist:dev").getD default

theorem reachable_laterMemory : Reachable laterMemory := .step .empty (.addImage ..)

theorem newer_laterImage : Label.Newer laterImage.labels 2 := ⟨⟨"2", rfl, by decide⟩, by decide⟩

theorem versionGate_laterImage : VersionGate stillHost () laterMemory "mnist:dev" laterImage 2 :=
  versionGate_of_newer stillHost () reachable_laterMemory rfl newer_laterImage

/-- A start of the image with an empty graph. -/
def ownGraph : Options :=
  { image := some "mnist:dev", name := "mnist", buildContext := "/work/mnist", sshPort := 10022,
    source := .docker (some {}) [] }

/-- The runtime after that start. -/
def laterMemory' : Memory := (((start ⟨⟨0⟩, 10⟩ ownGraph).run.run (beside stillHost) ((), laterMemory)).2).2

theorem ends_ownGraph : Ends (beside stillHost) (start ⟨⟨0⟩, 10⟩ ownGraph) ((), laterMemory)
    (.ok { sshPort := 10022, address := "172.17.0.2", name := "mnist", ports := [⟨"ssh", 10022⟩] })
    ((), laterMemory') := rfl

/-- The environment is listed and shown with what the image's labels say. -/
theorem newer_labels_shown : ∃ m reference i version, Reachable m ∧ m.images.get? reference = some i ∧
    Label.Newer i.labels version ∧ ∃ o s m' e, o.image = some reference ∧
      Ends (beside stillHost) (start ⟨⟨0⟩, 10⟩ o) ((), m) (.ok s) ((), m') ∧
      Ends (beside stillHost) (environment o.name) ((), m') (.ok e) ((), m') ∧
      Ends (beside stillHost) (dependency o.name) ((), m') (.ok e.manifest.dependency) ((), m') ∧
      Ends (beside stillHost) environments ((), m') (.ok [e]) ((), m') ∧
      e.manifest.cuda = some "11.8" ∧ i.labels.get? Label.cudaKey = some "11.8" := by
  have henvironment : Ends (beside stillHost) (environment "mnist") ((), laterMemory') (.ok _) ((), laterMemory') := rfl
  have hlisted : Ends (beside stillHost) environments ((), laterMemory') (.ok _) ((), laterMemory') := rfl
  exact ⟨laterMemory, "mnist:dev", laterImage, 2, reachable_laterMemory, rfl, newer_laterImage, ownGraph, _, _, _, rfl,
    ends_ownGraph, henvironment, rfl, hlisted, rfl, rfl⟩

end Start

end DevEnv.Local
