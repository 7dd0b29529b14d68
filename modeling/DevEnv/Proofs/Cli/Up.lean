import DevEnv.Cli.Up
import DevEnv.Proofs.Graph
import DevEnv.Proofs.Label
import DevEnv.Proofs.Local.Images
import DevEnv.Proofs.Text.Utf8

/-! The decision on GPUs when an environment is started from the command line. It is made from a build graph, and it is
the same whether the graph comes in a file or was recorded on the image. -/
namespace DevEnv.Cli
open DevEnv.Action
open DevEnv.Local (beside)
open DevEnv.Runtime (Memory)

section Files
variable {g : Graph} {cs : List Char}

/-- A graph that makes sense is read from every text that spells it. -/
theorem graph_read_of_spells (h : Json.Spells g.toJson cs) (blanks : Json.Padding) (hg : g.validate = .ok ()) :
    Graph.read (String.ofList (blanks.around cs)) = .ok g := by
  have hread : Json.read? (String.ofList (blanks.around cs)) = some g.toJson := by
    rw [Json.read?, String.toList_ofList]
    exact Json.readChars_of_spells h blanks
  rw [Graph.read, hread, Option.bind_some, Graph.faithful.read]
  simp [hg, bind, Except.bind, pure, Except.pure]

/-- A file that holds a graph: its JSON in one of the spellings, perhaps between blanks, in UTF-8. -/
def Holds (found : File.Contents) (g : Graph) : Prop :=
  ∃ (blanks : Json.Padding) (cs : List Char), Json.Spells g.toJson cs ∧
    found = .ok (String.ofList (blanks.around cs)).toUTF8.data.toList

theorem Holds.ofFile {found : File.Contents} (h : Holds found g) (hg : g.validate = .ok ()) :
    Graph.ofFile found = .ok g := by
  obtain ⟨blanks, cs, hspells, rfl⟩ := h
  rw [Graph.ofFile, File.text, Text.Utf8.decode?_toUTF8]
  exact graph_read_of_spells hspells blanks hg

/-- A graph as it is written is held by its bytes. -/
theorem holds_written (g : Graph) : Holds (.ok g.written.toUTF8.data.toList) g := by
  have hspells : Json.Spells g.toJson (Json.compact g.toJson) := Json.spells_compact (Graph.faithful.legible g)
  refine ⟨.none, Json.compact g.toJson, hspells, ?_⟩
  rw [Json.Padding.around_none]
  rfl

end Files

namespace UpOptions
variable {I : Interface} {σ τ α : Type} {world : (q : World.interface.Query) → σ → World.interface.Answer q × σ}
  {o : UpOptions} {g : Graph} {path : String}

/-- The name of the environment: the one that the options give, or that of the directory. -/
def named (o : UpOptions) (directory : String) : Except Error String :=
  o.name.elim ((Naming.ofDirectory directory).mapError .options) .ok

/-- The build context and the name of the environment, by what is found under the path of the build context. -/
def located (o : UpOptions) : Except String String → Except Error (String × String)
  | .ok directory => (o.named directory).map (directory, ·)
  | .error reason => .error (.io reason)

/-- The graph of the file that the options name. -/
def given (o : UpOptions) : Step (Option Graph) :=
  match o.graph with
  | some path => do
    let g ← Step.ofExcept .graph (Graph.ofFile (← Step.ask (.read path)))
    pure (some g)
  | none => pure none

section Prepare

theorem prepare_eq (o : UpOptions) : o.prepare = do
    let (buildContext, name) ← Step.ofExcept id (o.located (← Step.ask (.resolve o.path)))
    let graph ← o.given
    return { buildContext, name, graph } := by
  unfold prepare
  apply bind_congr
  intro found
  cases found with
  | error reason => rfl
  | ok directory =>
    unfold located named given
    simp only [Step.ofExcept, pure_bind]
    cases o.name with
    | some name => cases o.graph <;> simp [Except.map]
    | none => cases Naming.ofDirectory directory <;> cases o.graph <;> simp [Except.mapError, Except.map]

theorem run_ask (q : World.Query) (s : σ) : (Step.ask q).run.run world s = (some (.ok (world q s).1), (world q s).2) :=
  rfl

theorem run_ofExcept {ε : Type} (wrap : ε → Error) (x : Except ε α) (s : σ) :
    (Step.ofExcept wrap x).run.run world s = (some (x.mapError wrap), s) := by
  cases x <;> rfl

/-- Options that come with a graph are prepared as far as the build context and the name can be told. -/
theorem run_prepare {graph : Option Graph} (hgiven : ∀ t, (o.given.run.run world t).1 = some (.ok graph)) (s : σ) :
    (o.prepare.run.run world s).1 = some ((o.located (world (.resolve o.path) s).1).map
      fun l => { buildContext := l.1, name := l.2, graph }) := by
  rw [prepare_eq, Program.run_run_bind, run_ask]
  dsimp only
  rw [Program.run_run_bind, run_ofExcept]
  cases o.located (world (.resolve o.path) s).1 with
  | error e => rfl
  | ok l =>
    dsimp only [Except.mapError]
    rw [Program.run_run_bind]
    -- nothing follows the graph, so that it does not matter what the machine is like by then
    have hrun := hgiven (world (.resolve o.path) s).2
    generalize o.given.run.run world (world (.resolve o.path) s).2 = out at hrun ⊢
    obtain ⟨x, t⟩ := out
    obtain rfl : x = some (.ok graph) := hrun
    rfl

theorem run_given_of_none (h : o.graph = none) (t : σ) : (o.given.run.run world t).1 = some (.ok none) := by
  rw [given, h]
  rfl

theorem run_given_of_holds (h : o.graph = some path) (hg : g.validate = .ok ())
    (hfile : ∀ t, Holds (world (.read path) t).1 g) (t : σ) : (o.given.run.run world t).1 = some (.ok (some g)) := by
  rw [given, h]
  dsimp only
  rw [Program.run_run_bind, run_ask]
  dsimp only
  rw [(hfile t).ofFile hg]
  rfl

end Prepare

section Decide
variable {answer : (q : (Host.interface.sum I).Query) → τ → (Host.interface.sum I).Answer q × τ} {w w' : τ}
  {e : Engine I} {graph : Option Graph}

/-- Options are decided on as soon as the graph is known that the decision on GPUs is made from. -/
theorem ends_options {p : Prepared} (hg : Ends answer (gpuGraph e p.graph o.image) w (.ok graph) w') :
    ∃ x, Ends answer (o.options e p) w (.ok x) w' ∧ x.gpu = Gpu.Request.resolve o.gpus o.gpuCount graph o.noGpu :=
  ⟨_, ends_bind_ok.2 ⟨graph, w', hg, ends_pure.2 ⟨rfl, rfl⟩⟩, rfl⟩

/-- A graph that an image tells is found where none is given. -/
theorem ends_gpuGraph_of_recorded {image : String} (h : Ends answer (e.imageGraph image) w (.ok (some g)) w') :
    Ends answer (gpuGraph e none (some image)) w (.ok (some g)) w' := by
  have hrecorded : Ends answer (recordedGraph e image) w (.ok (some g)) w' :=
    ends_bind_ok.2 ⟨some g, w', h, ends_pure.2 ⟨rfl, rfl⟩⟩
  exact ends_bind_ok.2 ⟨.ok (some g), w', ends_outcome.2 ⟨_, hrecorded, rfl⟩, ends_pure.2 ⟨rfl, rfl⟩⟩

end Decide

/-- What the options come to: they are prepared on a machine, and the rest is asked of a control plane. There is no
result if one of the runs is cut off. -/
def comeTo (world : (q : World.interface.Query) → σ → World.interface.Answer q × σ)
    (answer : (q : (Host.interface.sum I).Query) → τ → (Host.interface.sum I).Answer q × τ) (e : Engine I)
    (s : σ) (w : τ) (o : UpOptions) : Option (Except Error Options) :=
  match (o.prepare.run.run world s).1 with
  | some (.ok p) => ((o.options e p).run.run answer w).1
  | some (.error x) => some (.error x)
  | none => none

/-- The request for GPUs among what the options come to. -/
def requestOf (world : (q : World.interface.Query) → σ → World.interface.Answer q × σ)
    (answer : (q : (Host.interface.sum I).Query) → τ → (Host.interface.sum I).Answer q × τ) (e : Engine I)
    (s : σ) (w : τ) (o : UpOptions) : Option (Except Error Gpu.Request) :=
  (o.comeTo world answer e s w).map fun r => r.map (·.gpu)

/-- Where a graph is given or told by the image, the request for GPUs is the one that the graph decides. -/
theorem requestOf_of_decides {answer : (q : (Host.interface.sum I).Query) → τ → (Host.interface.sum I).Answer q × τ}
    {e : Engine I} {w w' : τ} {s : σ} {graph : Option Graph}
    (hgiven : ∀ t, (o.given.run.run world t).1 = some (.ok graph))
    (hdecides : Ends answer (gpuGraph e graph o.image) w (.ok (some g)) w') :
    o.requestOf world answer e s w = some ((o.located (world (.resolve o.path) s).1).map
      fun _ => Gpu.Request.resolve o.gpus o.gpuCount (some g) o.noGpu) := by
  unfold requestOf comeTo
  rw [run_prepare hgiven]
  cases o.located (world (.resolve o.path) s).1 with
  | error x => rfl
  | ok l =>
    obtain ⟨x, hx, hgpu⟩ := ends_options (p := { buildContext := l.1, name := l.2, graph }) hdecides
    have hrun := congrArg Prod.fst hx
    dsimp only at hrun
    simp only [Except.map, hrun, Option.map_some, hgpu]

end UpOptions

section Local
variable {σ τ : Type} {world : (q : World.interface.Query) → σ → World.interface.Answer q × σ}
  {host : (q : Host.Query) → τ → q.Answer × τ} {h : τ} {m : Memory} {reference tag buildContext path : String}
  {i : StoredImage} {g : Graph} {o : UpOptions}

/-- The only image that a reference leads to. -/
structure Only (m : Memory) (reference tag : String) (i : StoredImage) : Prop where
  filed : m.images.get? tag = some i
  answers : i.answersTo reference = true
  alone : ∀ tag' j, m.images.get? tag' = some j → j.answersTo reference = true → tag' = tag

/-- An image that was built from a graph tells the graph. -/
theorem Only.ends_imageGraph (hi : Only m reference tag i) (hlabels : i.labels = Label.ofImage g buildContext) :
    Ends (beside host) (Local.imageGraph reference) (h, m) (.ok (some g)) (h, m) := by
  have howned : Label.isOwned i.labels = true := by
    rw [hlabels, Label.isOwned, Label.get?_ofImage]
    rfl
  have hfirst : Local.First m reference tag i := by
    refine ⟨hi.filed, howned, hi.answers, fun tag' j hj => ?_⟩
    -- one before it that answered would be filed before itself
    by_contra ha
    have htag : tag' = tag := hi.alone tag' j hj.filed (by simpa using ha)
    exact absurd (htag ▸ hj.before) (Std.lt_irrefl)
  have hfind := Local.find?_listImages_iff.2 ⟨tag, hfirst⟩
  have hgraph : Label.graph i.labels = .ok (some g) := hlabels ▸ Label.graph_ofImage
  exact ends_bind_ok.2 ⟨i, _, Local.ends_storedImage_ok.2 ⟨hfind, rfl⟩, ends_ofExcept_ok.2 ⟨hgraph, rfl⟩⟩

/-- The request for GPUs is the same whether a graph comes in a file or was recorded on the image, whatever else is
asked for. It is the one that the graph decides, as long as the build context and the name can be told. -/
theorem gpu_of_file_or_image (hg : g.validate = .ok ()) (hfile : ∀ t, Holds (world (.read path) t).1 g)
    (hi : Only m reference tag i) (hlabels : i.labels = Label.ofImage g buildContext)
    (himage : o.image = some reference) (p : Engine.Patience) (host : (q : Host.Query) → τ → q.Answer × τ)
    (s : σ) (h : τ) :
    let request (graph : Option String) : Option (Except Error Gpu.Request) :=
      { o with graph }.requestOf world (beside host) (Local.engine p) s (h, m)
    request (some path) = request none ∧ request none = some ((o.located (world (.resolve o.path) s).1).map
      fun _ => Gpu.Request.resolve o.gpus o.gpuCount (some g) o.noGpu) := by
  intro request
  have hgiven : request (some path) = some ((o.located (world (.resolve o.path) s).1).map
      fun _ => Gpu.Request.resolve o.gpus o.gpuCount (some g) o.noGpu) := by
    apply UpOptions.requestOf_of_decides
    · exact UpOptions.run_given_of_holds rfl hg hfile
    · exact ends_pure.2 ⟨rfl, rfl⟩
  have hrecorded : request none = some ((o.located (world (.resolve o.path) s).1).map
      fun _ => Gpu.Request.resolve o.gpus o.gpuCount (some g) o.noGpu) := by
    apply UpOptions.requestOf_of_decides
    · exact UpOptions.run_given_of_none rfl
    · rw [himage]
      exact UpOptions.ends_gpuGraph_of_recorded (hi.ends_imageGraph hlabels)
  exact ⟨hgiven.trans hrecorded.symm, hrecorded⟩

/-- A build graph that asks for two devices. -/
def trainingGraph : Graph := { gpuCount := some 2 }

/-- A runtime with the one image that was built from it. -/
def trainingMemory : Memory :=
  ({} : Memory).addImage "mnist:dev" (Label.ofImage trainingGraph "/work/mnist") default

/-- A machine on which every path leads to the same directory and every file holds the graph, without docker and
without a server. -/
def trainingWorld : (q : World.interface.Query) → Unit → World.interface.Answer q × Unit
  | .host q, w => Local.stillHost q w
  | .command _, w => (.error (.missing "docker"), w)
  | .exchange _, w => (.unreached "connection refused", w)
  | .read _, w => (.ok trainingGraph.written.toUTF8.data.toList, w)
  | .resolve _, w => (.ok "/work/mnist", w)

theorem gpu_of_file_or_image_training :
    let request (graph : Option String) : Option (Except Error Gpu.Request) :=
      UpOptions.requestOf trainingWorld (beside Local.stillHost) (Local.engine ⟨⟨0⟩, 10⟩) () ((), trainingMemory)
        { name := some "mnist", image := some "mnist:dev", graph }
    request (some "build.json") = request none ∧ request none = some (.ok (.count 2)) := by
  have himage : ∃ i, Only trainingMemory "mnist:dev" "mnist:dev" i ∧
      i.labels = Label.ofImage trainingGraph "/work/mnist" := by
    refine ⟨_, ⟨SortedMap.get?_insert_self .., rfl, fun tag j hj _ => ?_⟩, rfl⟩
    by_contra htag
    have hempty : ({} : Memory).images.get? tag = some j := SortedMap.get?_insert_ne htag ▸ hj
    exact Option.some_ne_none j hempty.symm
  obtain ⟨i, hi, hlabels⟩ := himage
  have hfile (t : Unit) : Holds (trainingWorld (.read "build.json") t).1 trainingGraph := holds_written trainingGraph
  exact gpu_of_file_or_image (o := { name := some "mnist", image := some "mnist:dev" }) rfl hfile hi hlabels rfl
    ⟨⟨0⟩, 10⟩ Local.stillHost () ()

end Local
end DevEnv.Cli
