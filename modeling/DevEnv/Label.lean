import DevEnv.Container
import DevEnv.Graph

/-! The labels of containers and images, in which all that is known of an environment is kept.
Labels of a later version than this one are refused; labels without a version are of the first. -/
namespace DevEnv.Label

def nameKey : String := "ai.tensorchord.envd.name"
def vendorKey : String := "ai.tensorchord.envd.vendor"
def gpuKey : String := "ai.tensorchord.envd.gpu"
def sshPortKey : String := "ai.tensorchord.envd.ssh.port"
def jupyterKey : String := "ai.tensorchord.envd.jupyter.address"
def rstudioKey : String := "ai.tensorchord.envd.rstudio.server.address"
def aptKey : String := "ai.tensorchord.envd.apt.packages"
def pypiKey : String := "ai.tensorchord.envd.pypi.commands"
def rKey : String := "ai.tensorchord.envd.r.packages"
def cudaKey : String := "ai.tensorchord.envd.gpu.cuda"
def cudnnKey : String := "ai.tensorchord.envd.gpu.cudnn"
def buildContextKey : String := "ai.tensorchord.envd.build.context"
def syntaxVersionKey : String := "ai.tensorchord.envd.syntax.version"
def graphKey : String := "ai.tensorchord.envd.graph.general"
def versionKey : String := "ai.tensorchord.envd.labels.version"

def vendor : String := "envd"

/-- The version that labels are written in. -/
def currentVersion : Nat := 1

/-- The address of the own host. -/
def localhost : String := "127.0.0.1"

inductive Error where
  | missing (key : String)
  | invalid (key value : String)
  | unsupportedVersion (version : Nat)
  | malformed (key : String)
  deriving DecidableEq, Repr

def Error.message : Error → String
  | missing key => s!"missing label '{key}'"
  | invalid key value => s!"invalid value for label '{key}': '{value}'"
  | unsupportedVersion version =>
    s!"label schema version {Text.ofNat version} is newer than supported version {Text.ofNat currentVersion}"
  | malformed key => s!"malformed JSON in label '{key}': not of the expected form"

/-- What the labels of an environment's container say about the running environment. -/
structure Facts where
  name : String
  sshPort : UInt16
  gpu : Bool
  jupyter : Option String
  rstudio : Option String
  deriving DecidableEq, Repr

/-- The address of a service on a port of the own host. -/
def serviceAddress (port : UInt16) : String := "http://" ++ localhost ++ ":" ++ Text.ofNat port.toNat

/-- The facts of an environment to be created; a service has an address if the graph declares it. -/
def Facts.ofStart (name : String) (g : Graph) (gpu : Bool) (sshPort : UInt16)
    (jupyterPort rstudioPort : Option UInt16) : Facts :=
  { name, sshPort, gpu
    jupyter := if g.jupyter.isSome then jupyterPort.map serviceAddress else none
    rstudio := if g.rstudio then rstudioPort.map serviceAddress else none }

/-- The entry of a key, if there is a value for it. -/
def entry? (key : String) : Option String → List (String × String)
  | some value => [(key, value)]
  | none => []

/-- The label that says that GPUs are used; it is left out where they are not. -/
def gpuEntry (gpu : Bool) : List (String × String) := if gpu then [(gpuKey, "true")] else []

def Facts.encode (f : Facts) : Labels :=
  .ofList ([(nameKey, f.name), (vendorKey, vendor), (sshPortKey, Text.ofNat f.sshPort.toNat),
    (versionKey, Text.ofNat currentVersion)] ++ gpuEntry f.gpu ++ entry? jupyterKey f.jupyter ++
    entry? rstudioKey f.rstudio)

/-- Refuses labels whose version is no number or too high. -/
def checkVersion (labels : Labels) : Except Error Unit :=
  match labels.get? versionKey with
  | none => .ok ()
  | some text =>
    match Text.readNat? (UInt32.size - 1) text with
    | none => .error (.invalid versionKey text)
    | some version => if currentVersion < version then .error (.unsupportedVersion version) else .ok ()

/-- The value of a label that has to be there. -/
def require (labels : Labels) (key : String) : Except Error String :=
  match labels.get? key with
  | some value => .ok value
  | none => .error (.missing key)

def usesGpu (labels : Labels) : Bool := labels.get? gpuKey = some "true"

def Facts.decode (labels : Labels) : Except Error Facts := do
  checkVersion labels
  let name ← require labels nameKey
  let port ← require labels sshPortKey
  match Text.readPort? port with
  | none => throw (.invalid sshPortKey port)
  | some sshPort =>
    return { name, sshPort, gpu := usesGpu labels, jupyter := labels.get? jupyterKey
             rstudio := labels.get? rstudioKey }

/-- The labels of a new environment's container. -/
def ofStart (name : String) (g : Graph) (gpu : Bool) (sshPort : UInt16)
    (jupyterPort rstudioPort : Option UInt16) : Labels :=
  (Facts.ofStart name g gpu sshPort jupyterPort rstudioPort).encode

def isOwned (labels : Labels) : Bool := labels.get? vendorKey = some vendor

/-- A list of texts as the value of a label. -/
def listText (texts : List String) : String := (Json.ofList Json.ofString texts).compactText

/-- The labels of an image built from a graph. -/
def ofImage (g : Graph) (buildContext : String) : Labels :=
  .ofList ([(vendorKey, vendor), (versionKey, Text.ofNat currentVersion), (buildContextKey, buildContext)] ++
    gpuEntry g.wantsGpu ++ entry? cudaKey g.cuda ++ entry? cudnnKey g.cudnn ++
    entry? syntaxVersionKey g.syntaxVersion ++
    [(aptKey, listText g.aptPackages), (pypiKey, listText g.pypiCommands), (rKey, listText g.rPackages),
      (graphKey, g.written)])

/-- The build graph an image was built from, if it was recorded. -/
def graph (labels : Labels) : Except Error (Option Graph) := do
  checkVersion labels
  match labels.get? graphKey with
  | none => return none
  | some text =>
    match (Json.read? text).bind Graph.ofJson? with
    | some g => return some g
    | none => throw (.malformed graphKey)

/-- A recorded list; empty where none was recorded. -/
def list (labels : Labels) (key : String) : Except Error (List String) :=
  match labels.get? key with
  | none => .ok []
  | some text =>
    match (Json.read? text).bind (Json.asList? Json.asString?) with
    | some texts => .ok texts
    | none => .error (.malformed key)

def isFlag (token : String) : Bool := token.toList.head? = some '-'

/-- The tokens of an install command that name packages: no flag, and none directly after a flag. -/
def packages : Bool → List String → List String
  | _, [] => []
  | afterFlag, token :: rest =>
    if isFlag token || afterFlag then packages (isFlag token) rest
    else token :: packages (isFlag token) rest

def dependency (labels : Labels) : Except Error Dependency := do
  let apt ← list labels aptKey
  let pypi ← list labels pypiKey
  let r ← list labels rKey
  return { apt, pypi := packages false pypi, r }

def manifest (labels : Labels) : Except Error Manifest := do
  checkVersion labels
  return {
    gpu := usesGpu labels
    cuda := labels.get? cudaKey
    cudnn := labels.get? cudnnKey
    buildContext := labels.get? buildContextKey
    dependency := ← dependency labels }

end DevEnv.Label
