import DevEnv.Proofs.Local.Versions

/-! The two ways in which an image is looked up. Queries compare a reference with the tags of every image, with or
without the usual tag added, and with identifiers long and short. A start takes it as a tag or as a long identifier,
and the labels of a new container are taken over from a tag only. -/
namespace DevEnv.Local
open DevEnv.Action
open DevEnv.Runtime (Call Memory)
open DevEnv.Runtime.Memory (Entry Reachable Sound)

variable {τ α : Type} {host : (q : Host.Query) → τ → q.Answer × τ} {h h' : τ} {m m' : Memory}
  {p : Engine.Patience} {o : Options} {r : Except Error Started} {i : StoredImage} {reference : String}

section Missing

/-- A fault other than that an image was not found. -/
def SparesImage (e : Error) : Prop := ∀ reference, e ≠ .imageNotFound reference

/-- The protocol that allows every call. -/
private abbrev free : Protocol Runtime.interface Unit := .only fun _ => True

private theorem fault_of_ends {Fault : Error → Prop} {act : Act α} {e : Error} {w : τ × Memory}
    (ha : Stays free Fault act ()) (he : Ends (beside host) act (h, m) (.error e) w) : Fault e := by
  obtain ⟨_, _, _, hf⟩ := follows_ends (fun _ _ => True) (fun _ _ _ _ _ => trivial) ha trivial he
  exact hf e rfl

private theorem sparesImage_runtime (e : Runtime.Error) : SparesImage (.runtime e) := fun _ => nofun

private theorem stays_callFree (c : Call) : Stays free SparesImage (call c) () :=
  stays_call Protocol.permits_only trivial sparesImage_runtime

private theorem stays_cleanFree (name : String) (forced : Bool) : Stays free SparesImage (clean name forced) () := by
  refine (stays_attempt Protocol.permits_only trivial).bind fun r => ?_
  split
  · split
    · exact stays_throw fun _ => nofun
    · exact stays_callFree _
  · exact stays_pure
  · exact stays_throw (sparesImage_runtime _)

private theorem stays_pickFree (pinned : UInt16) : Stays free SparesImage (Plan.pick freePort pinned) () := by
  refine follows_pick (fun _ _ => ⟨rfl, nofun⟩) fun reason => ⟨rfl, ?_⟩
  rintro _ ⟨⟩ _
  nofun

private theorem stays_layOutFree (o : Options) (a : Resolved) (ssh : UInt16) :
    Stays free SparesImage (layOut o a ssh) () := by
  have spared {e : Error} (hf : LayoutFault o a e) : SparesImage e := by
    rintro x rfl
    cases hf with
    | mount hm => exact absurd (Container.kind_of_mounts hm) nofun
    | exposure hc => exact absurd (Plan.kind_of_checkReserved hc) nofun
  refine follows_layOut.mono ?_
  rintro (e | x) _ ⟨rfl, hx⟩
  · refine ⟨rfl, ?_⟩
    rintro _ ⟨⟩
    exact spared hx
  · exact ⟨rfl, nofun⟩

private theorem stays_bringUpFree (p : Engine.Patience) (o : Options) :
    Stays free SparesImage (bringUp p o) () := by
  have spared {e : Error} (hu : Unready o.name e) : SparesImage e := by
    cases hu <;> exact fun _ => nofun
  have watches : Watches free o.name (fun _ => True) fun _ => True :=
    ⟨fun _ => trivial, fun _ => trivial, fun _ _ => trivial⟩
  refine (follows_bringUp watches trivial fun _ => trivial).mono ?_
  rintro (e | _) _ ⟨-, hx⟩
  · refine ⟨rfl, ?_⟩
    rintro _ ⟨⟩
    exact spared hx
  · exact ⟨rfl, nofun⟩

/-- Options that ask for an image by a reference and give no graph of their own. -/
structure Asks (o : Options) (reference : String) : Prop where
  image : o.image = some reference
  source : ∃ mountOptions, o.source = .docker none mountOptions

private theorem resolve_of_asks (ho : Asks o reference) : ∃ mountOptions, resolve o = do
    ofExcept .options o.validate
    let image ← imageOf o
    let graph ← recordedGraph image
    ofExcept .graph graph.validate
    let devices ← devicesOf o
    return { image, graph, devices, mountOptions } := by
  obtain ⟨mountOptions, hsource⟩ := ho.source
  exact ⟨mountOptions, by simp only [resolve, sourceOf, hsource, pure_bind, graphOf]⟩

private theorem sparesImage_of_recordedGraph (hi : m.inspectImage reference = .ok i) {e : Error} {w : τ × Memory}
    (he : Ends (beside host) (recordedGraph reference) (h, m) (.error e) w) : SparesImage e := by
  unfold recordedGraph at he
  rw [ends_attempt] at he
  dsimp only [Memory.answer] at he
  rw [hi] at he
  exact fault_of_ends ((stays_ofExcept fun _ _ _ => nofun).bind fun _ => stays_pure) he

/-- A start whose image is there does not miss it. -/
theorem sparesImage_of_start (ho : Asks o reference) (hi : m.inspectImage reference = .ok i) {e : Error}
    {w : τ × Memory} (he : Ends (beside host) (start p o) (h, m) (.error e) w) : SparesImage e := by
  obtain ⟨mountOptions, hresolve⟩ := resolve_of_asks ho
  rw [start_eq, hresolve] at he
  rcases ends_bind.1 he with ⟨a, _, -, he⟩ | ⟨_, he, ⟨⟩⟩
  · refine fault_of_ends ?_ he
    exact (stays_pickFree _).bind fun ssh => (stays_cleanFree _ _).bind fun _ =>
      (stays_layOutFree o a ssh).bind fun _ => (stays_callFree _).bind fun _ =>
        (stays_bringUpFree p o).bind fun _ => (stays_callFree _).bind fun _ => stays_pure
  -- of what comes first only the lookup of the image could miss it
  rcases ends_bind.1 he with ⟨_, _, hv, he⟩ | ⟨_, he, ⟨⟩⟩
  case inr =>
    refine fault_of_ends ?_ he
    exact stays_ofExcept fun _ _ _ => nofun
  obtain ⟨-, rfl⟩ := ends_ofExcept_ok.1 hv
  rcases ends_bind.1 he with ⟨image, _, himage, he⟩ | ⟨_, he, ⟨⟩⟩
  case inr =>
    refine fault_of_ends ?_ he
    unfold imageOf
    split
    · exact stays_pure
    · exact stays_throw fun _ => nofun
  obtain ⟨⟨hasked, -⟩, rfl⟩ := ends_imageOf.1 himage
  obtain rfl : reference = image := Option.some.inj (ho.image.symm.trans hasked)
  rcases ends_bind.1 he with ⟨g, _, -, he⟩ | ⟨_, he, ⟨⟩⟩
  · refine fault_of_ends ?_ he
    exact (stays_ofExcept fun _ _ _ => nofun).bind fun _ =>
      (stays_devicesOf (fun _ _ => ⟨trivial, fun _ => rfl⟩) (fun _ _ => nofun) sparesImage_runtime
        fun _ => nofun).bind fun _ => stays_pure
  · exact sparesImage_of_recordedGraph hi he

/-- A start whose image is nowhere misses it, as long as nothing else is wrong with its options. -/
theorem ends_start_missing (ho : Asks o reference) (hr : reference ≠ "") (hv : o.validate = .ok ())
    (hi : m.inspectImage reference = .error (.notFound reference)) :
    Ends (beside host) (start p o) (h, m) (.error (.imageNotFound reference)) (h, m) := by
  obtain ⟨mountOptions, hresolve⟩ := resolve_of_asks ho
  have hgraph : Ends (beside host) (recordedGraph reference) (h, m) (.error (.imageNotFound reference)) (h, m) := by
    unfold recordedGraph
    rw [ends_attempt]
    dsimp only [Memory.answer]
    rw [hi]
    exact ends_throw.2 ⟨rfl, rfl⟩
  rw [start_eq, hresolve]
  refine ends_bind.2 (.inr ⟨_, ?_, rfl⟩)
  refine ends_bind.2 (.inl ⟨(), _, ends_ofExcept_ok.2 ⟨hv, rfl⟩, ?_⟩)
  refine ends_bind.2 (.inl ⟨reference, _, ends_imageOf.2 ⟨⟨ho.image, hr⟩, rfl⟩, ?_⟩)
  exact ends_bind.2 (.inr ⟨_, hgraph, rfl⟩)

end Missing

section Names

/-- Identifiers of images look like references with a tag. -/
theorem tagged_hashed (n : Nat) :
    Image.tagged ("sha256:" ++ Memory.hexId n) = "sha256:" ++ Memory.hexId n := by
  have hslash : '/' ∉ ("sha256:" ++ Memory.hexId n).toList := by
    rw [String.toList_append, List.mem_append, not_or]
    refine ⟨by decide, fun hm => ?_⟩
    obtain ⟨d, hd, hc⟩ := Memory.digit_of_mem_hexId hm
    exact absurd hc.symm ((by decide : ∀ d < 16, Nat.digitChar d ≠ '/') d hd)
  have hcolon : ("sha256:" ++ Memory.hexId n).toList.contains ':' = true := by
    rw [List.contains_iff_mem, String.toList_append]
    exact List.mem_append_left _ (by decide)
  simp only [Image.tagged, Text.piecesBy_of_notMem hslash, List.getLastD_cons, List.getLastD_nil, hcolon, Bool.or_true,
    if_true]

/-- No identifier is as short as the short form of one. -/
theorem short_ne_hashed (id : Identifier) (n : Nat) : id.short ≠ "sha256:" ++ Memory.hexId n := by
  intro heq
  have hlength := congrArg (·.toList.length) heq
  simp only [Identifier.short, Memory.hexId, String.toList_append, String.toList_ofList, List.length_take,
    List.length_append, List.length_replicate] at hlength
  omega

/-- The identifier of an image is what no other image goes by, but for one that has it as its tag. -/
theorem eq_of_answersTo (hm : Reachable m) {tag tag' : String} {j : StoredImage} (hi : m.images.get? tag = some i)
    (hj : m.images.get? tag' = some j) (ha : i.answersTo j.id.text) : tag = j.id.text ∨ i = j := by
  obtain ⟨n, -, hn⟩ := hm.catalogued.issued hj
  have htext : j.id.text = "sha256:" ++ Memory.hexId n := congrArg Identifier.text hn
  rw [StoredImage.answersTo, hm.tags_eq hi, htext, tagged_hashed] at ha
  simp only [List.any_cons, List.any_nil, Bool.or_false, Bool.or_eq_true, decide_eq_true_eq, or_self] at ha
  rcases ha with (htag | hid) | hshort
  · exact .inl (htag.trans htext.symm)
  · have hsame : i.id = j.id := congrArg Identifier.mk (hid.trans htext.symm)
    obtain rfl := hm.catalogued.distinct hi hj hsame
    exact .inr (Option.some.inj (hi.symm.trans hj))
  · exact absurd hshort (short_ne_hashed _ _)

end Names

section Lookup

/-- What starts make of a reference that leads to an image: the graph that they use without one of their own, and
the labels that a new container takes over. -/
structure Takes (host : (q : Host.Query) → τ → q.Answer × τ) (h : τ) (m : Memory) (reference : String)
    (recorded : Except Label.Error (Option Graph)) (labels : Labels) : Prop where
  graph : ∀ o a, Asks o reference → Resolves m o a → ∃ g, recorded = .ok g ∧ a.graph = g.getD {}
  found : ∀ p o e h' m', Asks o reference → Ends (beside host) (start p o) (h, m) (.error e) (h', m') → SparesImage e
  inherits : ∀ p o r h' m' n k, Asks o reference → Ends (beside host) (start p o) (h, m) r (h', m') →
    m'.containers.get? n = some k → (∀ n' x, m.containers.get? n' = some x → x.container.id ≠ k.container.id) →
      k.container.labels = labels.overlay k.spec.labels

theorem takes_of_inspectImage (host : (q : Host.Query) → τ → q.Answer × τ) (h : τ) (hm : Reachable m)
    (hi : m.inspectImage reference = .ok i) :
    Takes host h m reference (Label.graph i.labels) (inherited m reference) := by
  refine ⟨?_, fun p o e h' m' ho he => sparesImage_of_start ho hi he, ?_⟩
  · intro o a ho ha
    obtain ⟨mountOptions, hsource⟩ := ho.source
    obtain ⟨given, hgiven, hgraph⟩ := ha.source
    rw [hsource] at hgiven
    cases hgiven
    obtain ⟨j, hj, g, hg, hag⟩ := hgraph
    rw [ha.image_eq ho.image, hi] at hj
    cases hj
    exact ⟨g, hg, hag⟩
  · intro p o r h' m' n k ho he hk hnew
    obtain ⟨a, ssh, mounts, plan, ha, -, -, hl⟩ := exists_of_new hm.sound he hk hnew
    rwa [ha.image_eq ho.image] at hl

/-- How starts take a reference that a query has led to an image with a graph. -/
inductive Reading (host : (q : Host.Query) → τ → q.Answer × τ) (h : τ) (m : Memory) (reference tag : String)
    (i : StoredImage) (g : Graph) : Prop where
  /-- As its tag it is the same image to them. -/
  | tagged (same : tag = reference) (takes : Takes host h m reference (.ok (some g)) i.labels)
  /-- As the tag of another image it is that one to them. -/
  | overruled {j : StoredImage} (ne : tag ≠ reference) (filed : m.images.get? reference = some j)
      (takes : Takes host h m reference (Label.graph j.labels) j.labels)
  /-- As its identifier it is the same image to them, but a container takes over none of its labels. -/
  | identified (untagged : m.images.get? reference = none) (id : i.id.text = reference)
      (takes : Takes host h m reference (.ok (some g)) ∅)
  /-- As its tag without the usual ending, or as the short form of its identifier, it is none to them. -/
  | missed (untagged : m.images.get? reference = none) (id : i.id.text ≠ reference)
      (spelled : tag = Image.tagged reference ∨ i.id.short = reference)
      (misses : ∀ p o, Asks o reference → reference ≠ "" → o.validate = .ok () →
        Ends (beside host) (start p o) (h, m) (.error (.imageNotFound reference)) (h, m))

private theorem reading_of_tagged (hm : Reachable m) {tag : String} {j : StoredImage} {g : Graph}
    (hi : m.images.get? tag = some i) (hgraph : Label.graph i.labels = .ok (some g))
    (hj : m.images.get? reference = some j) : Reading host h m reference tag i g := by
  have takes := takes_of_inspectImage host h hm (Memory.inspectImage_of_get? hj)
  have hlabels : inherited m reference = j.labels := by rw [inherited, hj]; rfl
  rw [hlabels] at takes
  by_cases hsame : tag = reference
  · obtain rfl : i = j := Option.some.inj (hi.symm.trans (hsame ▸ hj))
    exact .tagged hsame (hgraph ▸ takes)
  · exact .overruled hsame hj takes

private theorem reading_of_untagged (hm : Reachable m) {tag : String} {g : Graph} (hi : m.images.get? tag = some i)
    (hgraph : Label.graph i.labels = .ok (some g)) (ha : i.answersTo reference)
    (hnone : m.images.get? reference = none) : Reading host h m reference tag i g := by
  have hne : tag ≠ reference := by
    rintro rfl
    rw [hi] at hnone
    cases hnone
  by_cases hid : ∃ tag' j, m.images.get? tag' = some j ∧ j.id.text = reference
  · obtain ⟨tag', j, hj, rfl⟩ := hid
    rcases eq_of_answersTo hm hi hj ha with hid | rfl
    · exact absurd hid hne
    have takes := takes_of_inspectImage host h hm (hm.catalogued.inspectImage_of_id hnone hj rfl)
    have hlabels : inherited m i.id.text = ∅ := by rw [inherited, hnone]; rfl
    rw [hlabels, hgraph] at takes
    exact .identified hnone rfl takes
  · have hother (tag' : String) (j : StoredImage) (hj : m.images.get? tag' = some j) : j.id.text ≠ reference :=
      fun hid' => hid ⟨tag', j, hj, hid'⟩
    have hmissing := Memory.inspectImage_eq_notFound_iff.2 ⟨hnone, hother⟩
    refine .missed hnone (hother tag i hi) ?_ fun p o ho hr hv => ends_start_missing ho hr hv hmissing
    rw [StoredImage.answersTo, hm.tags_eq hi] at ha
    simpa [hne, hother tag i hi] using ha

/-- A reference by which a query has found the graph of an image is the same to a start only as the image's tag. -/
theorem graph_taken (hm : Reachable m) {g : Graph} {w : τ × Memory}
    (he : Ends (beside host) (imageGraph reference) (h, m) (.ok (some g)) w) :
    ∃ tag i, m.images.get? tag = some i ∧ Label.isOwned i.labels ∧ i.answersTo reference ∧
      Label.graph i.labels = .ok (some g) ∧ Reading host h m reference tag i g := by
  obtain ⟨i, _, hstored, hread⟩ := ends_bind_ok.1 he
  obtain ⟨hfind, rfl⟩ := ends_storedImage_ok.1 hstored
  obtain ⟨hgraph, rfl⟩ := ends_ofExcept_ok.1 hread
  obtain ⟨hvalues, howned⟩ := List.mem_filter.1 (List.mem_of_find?_eq_some hfind)
  obtain ⟨tag, hi⟩ := SortedMap.mem_values.1 hvalues
  have ha : i.answersTo reference = true := List.find?_some hfind
  refine ⟨tag, i, hi, passes_ownFilter i.labels ▸ howned, ha, hgraph, ?_⟩
  cases hget : m.images.get? reference with
  | some j => exact reading_of_tagged hm hi hgraph hget
  | none => exact reading_of_untagged hm hi hgraph ha hget

/-- A build graph with a notebook. -/
def notebookGraph : Graph := { jupyter := some { port := 18888 } }

/-- A runtime with an image that was built from it, under the usual tag. -/
def latestMemory : Memory :=
  ({} : Memory).addImage "mnist:latest" (Label.ofImage notebookGraph "/work/mnist") default

theorem reachable_latestMemory : Reachable latestMemory := .step .empty (.addImage ..)

/-- The image as it is filed. -/
def latestImage : StoredImage :=
  { id := ⟨"sha256:" ++ Memory.hexId 1⟩, tags := ["mnist:latest"], size := 1048576, created := some default
    labels := Label.ofImage notebookGraph "/work/mnist" }

theorem ends_imageGraph_latest {name : String} (hn : latestImage.answersTo name) :
    Ends (beside stillHost) (imageGraph name) ((), latestMemory) (.ok (some notebookGraph)) ((), latestMemory) := by
  have howned : Memory.passes ownFilter (Label.ofImage notebookGraph "/work/mnist") = true := by
    rw [passes_ownFilter, Label.isOwned, Label.get?_ofImage]
    rfl
  have hvalues : latestMemory.images.values = [latestImage] := rfl
  have hlisted : latestMemory.listImages ownFilter = [latestImage] := by
    rw [Memory.listImages, hvalues]
    exact List.filter_cons_of_pos howned
  have hfind : (latestMemory.listImages ownFilter).find? (·.answersTo name) = some latestImage := by
    rw [hlisted, List.find?_cons_of_pos hn]
  have hgraph : Label.graph (Label.ofImage notebookGraph "/work/mnist") = .ok (some notebookGraph) :=
    Label.graph_ofImage ..
  exact ends_bind_ok.2 ⟨latestImage, _, ends_storedImage_ok.2 ⟨hfind, rfl⟩, ends_ofExcept_ok.2 ⟨hgraph, rfl⟩⟩

theorem graph_taken_latest : ∃ tag i, latestMemory.images.get? tag = some i ∧ Label.isOwned i.labels ∧
    i.answersTo "mnist:latest" ∧ Label.graph i.labels = .ok (some notebookGraph) ∧
    Reading stillHost () latestMemory "mnist:latest" tag i notebookGraph :=
  graph_taken reachable_latestMemory (ends_imageGraph_latest rfl)

/-- A start of the image by its name without the tag. -/
def untagged : Options :=
  { image := some "mnist", name := "mnist", buildContext := "/work/mnist", sshPort := 10022, source := .docker none [] }

/-- A query finds the graph of the image by its name without the tag, and a start does not find the image. -/
theorem untagged_misses : ∃ m reference g, Reachable m ∧
    Ends (beside stillHost) (imageGraph reference) ((), m) (.ok (some g)) ((), m) ∧
    ∃ o, Asks o reference ∧
      Ends (beside stillHost) (start ⟨⟨0⟩, 10⟩ o) ((), m) (.error (.imageNotFound reference)) ((), m) := by
  have hasks : Asks untagged "mnist" := ⟨rfl, [], rfl⟩
  have hmissing : latestMemory.inspectImage "mnist" = .error (.notFound "mnist") := rfl
  have hfound : Ends (beside stillHost) (imageGraph "mnist") ((), latestMemory) (.ok (some notebookGraph)) _ :=
    ends_imageGraph_latest rfl
  exact ⟨latestMemory, "mnist", notebookGraph, reachable_latestMemory, hfound, untagged, hasks,
    ends_start_missing hasks (by decide) rfl hmissing⟩

end Lookup

end DevEnv.Local
