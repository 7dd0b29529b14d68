import DevEnv.Label
import DevEnv.Proofs.Graph
import DevEnv.Proofs.SortedMap
import DevEnv.Proofs.Text.Numeral

/-! Labels read back. Those of an image give its build graph and its packages, and an environment's own labels
laid over them add the environment's facts and keep what the image recorded. -/
namespace DevEnv.Label

/-- A table of optional values as labels: a key without a value has no label. -/
def ofTable (table : List (String × Option String)) : Labels := .ofList (table.flatMap fun e => entry? e.1 e.2)

private theorem lookup_entry (key k : String) (value : Option String) :
    List.lookup k ( entry? key value).reverse = if k = key then value else none := by
  unfold entry?
  cases value with
  | none => simp
  | some v => by_cases hk : k = key <;> simp [hk]

theorem get?_ofTable {table : List (String × Option String)} (hn : (table.map (·.1)).Nodup) (k : String) :
    (ofTable table).get? k = (table.lookup k).join := by
  rw [ofTable, SortedMap.get?_ofList]
  induction table with
  | nil => rfl
  | cons e table ih =>
    obtain ⟨key, value⟩ := e
    obtain ⟨hkey, hn⟩ := List.nodup_cons.1 hn
    rw [List.flatMap_cons, List.reverse_append, List.lookup_append, ih hn, lookup_entry, List.lookup_cons]
    by_cases hk : k = key
    · rw [SortedMap.lookup_eq_none_of_notMem (hk ▸ hkey)]
      simp [hk]
    · rw [if_neg hk, Option.or_none, beq_eq_false_iff_ne.2 hk]

/-- The label that says that GPUs are used, as a value of its key. -/
def gpuValue (gpu : Bool) : Option String := if gpu then some "true" else none

theorem gpuEntry_eq (gpu : Bool) : gpuEntry gpu = entry? gpuKey (gpuValue gpu) := by
  cases gpu <;> rfl

def Facts.table (f : Facts) : List (String × Option String) :=
  [(nameKey, f.name), (vendorKey, vendor), (sshPortKey, Text.ofNat f.sshPort.toNat),
    (versionKey, Text.ofNat currentVersion), (gpuKey, gpuValue f.gpu), (jupyterKey, f.jupyter),
    (rstudioKey, f.rstudio)]

def imageTable (g : Graph) (buildContext : String) : List (String × Option String) :=
  [(vendorKey, vendor), (versionKey, Text.ofNat currentVersion), (buildContextKey, buildContext),
    (gpuKey, gpuValue g.wantsGpu), (cudaKey, g.cuda), (cudnnKey, g.cudnn), (syntaxVersionKey, g.syntaxVersion),
    (aptKey, listText g.aptPackages), (pypiKey, listText g.pypiCommands), (rKey, listText g.rPackages),
    (graphKey, g.written)]

theorem Facts.get?_encode (f : Facts) (k : String) : f.encode.get? k = (f.table.lookup k).join := by
  have hn : (f.table.map (·.1)).Nodup := by
    change [nameKey, vendorKey, sshPortKey, versionKey, gpuKey, jupyterKey, rstudioKey].Nodup
    decide
  rw [← get?_ofTable hn, encode, ofTable, gpuEntry_eq]
  simp [table, entry?]

theorem get?_ofImage (g : Graph) (buildContext k : String) :
    (ofImage g buildContext).get? k = ((imageTable g buildContext).lookup k).join := by
  have hn : ((imageTable g buildContext).map (·.1)).Nodup := by
    change [vendorKey, versionKey, buildContextKey, gpuKey, cudaKey, cudnnKey, syntaxVersionKey, aptKey, pypiKey,
      rKey, graphKey].Nodup
    decide
  rw [← get?_ofTable hn, ofImage, ofTable, gpuEntry_eq]
  simp [imageTable, entry?]

section Image
variable {g : Graph} {buildContext : String}

theorem checkVersion_of_current {labels : Labels}
    (h : labels.get? versionKey = some (Text.ofNat currentVersion)) : checkVersion labels = .ok () := by
  rw [checkVersion, h]
  dsimp only
  rw [Text.readNat?_ofNat (by decide)]
  rfl

theorem checkVersion_ofImage : checkVersion (ofImage g buildContext) = .ok () :=
  checkVersion_of_current (get?_ofImage ..)

theorem graph_ofImage : graph (ofImage g buildContext) = .ok (some g) := by
  have hg : (ofImage g buildContext).get? graphKey = some g.written := get?_ofImage ..
  rw [graph, checkVersion_ofImage, hg]
  simp [bind, Except.bind, Graph.read?_written, pure, Except.pure]

theorem list_of_get? {labels : Labels} {key : String} {texts : List String}
    (h : labels.get? key = some (listText texts)) : list labels key = .ok texts := by
  have faithful := Json.faithful_text.list
  rw [list, h, listText]
  dsimp only
  rw [Json.read?_compactText (faithful.legible texts), Option.bind_some, faithful.read]

/-- The tokens that are no flag and do not come right after one. -/
def packageTokens (tokens : List String) : List String :=
  ((tokens.zip ("" :: tokens)).filter fun t => !isFlag t.1 && !isFlag t.2).map (·.1)

theorem packages_eq_packageTokens (tokens : List String) : packages false tokens = packageTokens tokens := by
  have general (before : String) : packages (isFlag before) tokens =
      ((tokens.zip (before :: tokens)).filter fun t => !isFlag t.1 && !isFlag t.2).map (·.1) := by
    induction tokens generalizing before with
    | nil => rfl
    | cons token tokens ih =>
      rw [packages, ih token, List.zip_cons_cons, List.filter_cons]
      cases isFlag token <;> cases isFlag before <;> rfl
  exact general ""

/-- What an image's labels say of the graph and the context that it was built from. -/
def manifestOf (g : Graph) (buildContext : String) : Manifest where
  gpu := g.wantsGpu
  cuda := g.cuda
  cudnn := g.cudnn
  buildContext := some buildContext
  dependency := { apt := g.aptPackages, pypi := packageTokens g.pypiCommands, r := g.rPackages }

theorem usesGpu_ofImage : usesGpu (ofImage g buildContext) = g.wantsGpu := by
  have hg : (ofImage g buildContext).get? gpuKey = gpuValue g.wantsGpu := get?_ofImage ..
  rw [usesGpu, hg]
  cases g.wantsGpu <;> rfl

theorem dependency_ofImage : dependency (ofImage g buildContext) = .ok (manifestOf g buildContext).dependency := by
  have hapt : list (ofImage g buildContext) aptKey = .ok g.aptPackages := list_of_get? (get?_ofImage ..)
  have hpypi : list (ofImage g buildContext) pypiKey = .ok g.pypiCommands := list_of_get? (get?_ofImage ..)
  have hr : list (ofImage g buildContext) rKey = .ok g.rPackages := list_of_get? (get?_ofImage ..)
  rw [dependency, hapt, hpypi, hr]
  simp [bind, Except.bind, manifestOf, packages_eq_packageTokens, pure, Except.pure]

theorem manifest_ofImage : manifest (ofImage g buildContext) = .ok (manifestOf g buildContext) := by
  have hcuda : (ofImage g buildContext).get? cudaKey = g.cuda := get?_ofImage ..
  have hcudnn : (ofImage g buildContext).get? cudnnKey = g.cudnn := get?_ofImage ..
  have hcontext : (ofImage g buildContext).get? buildContextKey = some buildContext := get?_ofImage ..
  rw [manifest, checkVersion_ofImage, dependency_ofImage, usesGpu_ofImage, hcuda, hcudnn, hcontext]
  rfl

/-- The labels of an image give back the graph it was built from, whatever texts it holds, and what a view shows. -/
theorem read_back_ofImage (g : Graph) (buildContext : String) :
    graph (ofImage g buildContext) = .ok (some g) ∧
    manifest (ofImage g buildContext) = .ok
      { gpu := g.wantsGpu
        cuda := g.cuda
        cudnn := g.cudnn
        buildContext := some buildContext
        dependency := { apt := g.aptPackages, pypi := packageTokens g.pypiCommands, r := g.rPackages } } :=
  ⟨graph_ofImage, manifest_ofImage⟩

end Image

section Overlay
variable {labels : Labels} {f : Facts}

/-- Labels of an image under the facts of an environment, looked up by key. -/
theorem get?_overlay_encode (labels : Labels) (f : Facts) (k : String) :
    (labels.overlay f.encode).get? k = ((f.table.lookup k).join).or (labels.get? k) := by
  rw [SortedMap.get?_overlay, f.get?_encode]

theorem checkVersion_overlay : checkVersion (labels.overlay f.encode) = .ok () :=
  checkVersion_of_current (get?_overlay_encode ..)

theorem isOwned_overlay : isOwned (labels.overlay f.encode) = true := by
  have hv : (labels.overlay f.encode).get? vendorKey = some vendor := get?_overlay_encode ..
  rw [isOwned, hv]
  rfl

/-- GPUs are used where the environment or its image says so: the environment has no way to say that they are not. -/
theorem usesGpu_overlay : usesGpu (labels.overlay f.encode) = (f.gpu || usesGpu labels) := by
  have hg : (labels.overlay f.encode).get? gpuKey = (gpuValue f.gpu).or (labels.get? gpuKey) :=
    get?_overlay_encode ..
  rw [usesGpu, hg]
  cases f.gpu <;> rfl

theorem Facts.decode_overlay : decode (labels.overlay f.encode) = .ok
    { f with
      gpu := f.gpu || usesGpu labels
      jupyter := f.jupyter.or (labels.get? jupyterKey)
      rstudio := f.rstudio.or (labels.get? rstudioKey) } := by
  have hname : require (labels.overlay f.encode) nameKey = .ok f.name := by
    have h : (labels.overlay f.encode).get? nameKey = some f.name := get?_overlay_encode ..
    rw [require, h]
  have hport : require (labels.overlay f.encode) sshPortKey = .ok (Text.ofNat f.sshPort.toNat) := by
    have h : (labels.overlay f.encode).get? sshPortKey = some (Text.ofNat f.sshPort.toNat) :=
      get?_overlay_encode ..
    rw [require, h]
  have hjupyter : (labels.overlay f.encode).get? jupyterKey = f.jupyter.or (labels.get? jupyterKey) :=
    get?_overlay_encode ..
  have hrstudio : (labels.overlay f.encode).get? rstudioKey = f.rstudio.or (labels.get? rstudioKey) :=
    get?_overlay_encode ..
  simp only [decode, checkVersion_overlay, hname, hport, bind, Except.bind, Text.readPort?_ofNat, usesGpu_overlay,
    hjupyter, hrstudio]
  rfl

private theorem list_congr {labels' : Labels} {key : String} (h : labels'.get? key = labels.get? key) :
    list labels' key = list labels key := by
  rw [list, list, h]

theorem dependency_overlay : dependency (labels.overlay f.encode) = dependency labels := by
  rw [dependency, dependency, list_congr (get?_overlay_encode labels f aptKey),
    list_congr (get?_overlay_encode labels f pypiKey), list_congr (get?_overlay_encode labels f rKey)]

/-- Labels of a version that can be read say the same under an environment's, which only add that GPUs are used. -/
theorem manifest_overlay_of_checkVersion (h : checkVersion labels = .ok ()) :
    manifest (labels.overlay f.encode) =
      (manifest labels).map fun recorded => { recorded with gpu := f.gpu || recorded.gpu } := by
  have hcuda : (labels.overlay f.encode).get? cudaKey = labels.get? cudaKey := get?_overlay_encode ..
  have hcudnn : (labels.overlay f.encode).get? cudnnKey = labels.get? cudnnKey := get?_overlay_encode ..
  have hcontext : (labels.overlay f.encode).get? buildContextKey = labels.get? buildContextKey :=
    get?_overlay_encode ..
  unfold manifest
  rw [checkVersion_overlay, h, dependency_overlay, usesGpu_overlay, hcuda, hcudnn, hcontext]
  cases dependency labels <;> rfl

theorem graph_overlay_of_checkVersion (h : checkVersion labels = .ok ()) :
    graph (labels.overlay f.encode) = graph labels := by
  have hgraph : (labels.overlay f.encode).get? graphKey = labels.get? graphKey := get?_overlay_encode ..
  rw [graph, graph, checkVersion_overlay, h, hgraph]

/-- What an image's labels say stays readable under an environment's. -/
theorem manifest_overlay {recorded : Manifest} (h : manifest labels = .ok recorded) :
    manifest (labels.overlay f.encode) = .ok { recorded with gpu := f.gpu || recorded.gpu } := by
  cases hv : checkVersion labels with
  | error e =>
    rw [manifest, hv] at h
    cases h
  | ok =>
    rw [manifest_overlay_of_checkVersion hv, h]
    rfl

theorem graph_overlay {recorded : Option Graph} (h : graph labels = .ok recorded) :
    graph (labels.overlay f.encode) = .ok recorded := by
  cases hv : checkVersion labels with
  | error e =>
    rw [graph, hv] at h
    cases h
  | ok => rw [graph_overlay_of_checkVersion hv, h]

end Overlay

section Version
variable {labels : Labels} {f : Facts} {version : Nat}

/-- The labels say that they are of a version later than this one. -/
structure Newer (labels : Labels) (version : Nat) : Prop where
  stated : ∃ text, labels.get? versionKey = some text ∧ Text.readNat? (UInt32.size - 1) text = some version
  later : currentVersion < version

theorem Newer.checkVersion_eq (h : Newer labels version) :
    checkVersion labels = .error (.unsupportedVersion version) := by
  obtain ⟨text, ht, hv⟩ := h.stated
  rw [checkVersion, ht]
  dsimp only
  rw [hv]
  exact if_pos h.later

theorem Newer.manifest_eq (h : Newer labels version) : manifest labels = .error (.unsupportedVersion version) := by
  rw [manifest, h.checkVersion_eq]
  rfl

theorem Newer.graph_eq (h : Newer labels version) : graph labels = .error (.unsupportedVersion version) := by
  rw [graph, h.checkVersion_eq]
  rfl

/-- All that labels say but their version. -/
def unversioned (labels : Labels) : Labels := labels.erase versionKey

theorem checkVersion_unversioned : checkVersion (unversioned labels) = .ok () := by
  have hv : (unversioned labels).get? versionKey = none := SortedMap.get?_erase_self ..
  rw [checkVersion, hv]

/-- An environment's labels hide the version of its image's. -/
theorem overlay_unversioned (labels : Labels) (f : Facts) :
    (unversioned labels).overlay f.encode = labels.overlay f.encode := by
  refine SortedMap.ext_get? fun k => ?_
  rw [get?_overlay_encode, get?_overlay_encode, unversioned]
  by_cases hk : k = versionKey
  · rw [hk]
    rfl
  · rw [SortedMap.get?_erase_ne hk]

theorem manifest_overlay_eq : manifest (labels.overlay f.encode) =
    (manifest (unversioned labels)).map fun recorded => { recorded with gpu := f.gpu || recorded.gpu } := by
  rw [← overlay_unversioned, manifest_overlay_of_checkVersion checkVersion_unversioned]

theorem graph_overlay_eq : graph (labels.overlay f.encode) = graph (unversioned labels) := by
  rw [← overlay_unversioned, graph_overlay_of_checkVersion checkVersion_unversioned]

end Version

end DevEnv.Label
