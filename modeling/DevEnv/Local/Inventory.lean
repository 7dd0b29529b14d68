import DevEnv.Host
import DevEnv.Plan
import DevEnv.Runtime.Call

/-! Views of environments and images, read off what a container runtime lists.
An object whose labels cannot be read is left out of listings, so that it does not hide the others. -/
namespace DevEnv

/-- An environment as its container shows it. -/
def Environment.ofContainer (c : Container) : Except Label.Error Environment := do
  let facts ← Label.Facts.decode c.labels
  return {
    name := c.name
    image := c.image
    status := c.status
    sshPort := facts.sshPort
    jupyter := facts.jupyter
    rstudio := facts.rstudio
    manifest := ← Label.manifest c.labels }

/-- What stands for the tag of an image without tags. -/
def Image.untagged : String := "<none>"

def Image.ofStored (i : StoredImage) : Except Label.Error Image := do
  return {
    reference := i.tags.head?.getD untagged
    id := i.id
    tags := i.tags
    size := i.size
    created := i.created
    manifest := ← Label.manifest i.labels }

/-- A reference with a tag: as given if it has a tag or a digest, else with the tag of the latest image. -/
def Image.tagged (reference : String) : String :=
  let base := (Text.piecesBy (· = '/') reference.toList).getLastD []
  if reference.toList.contains '@' || base.contains ':' then reference else reference ++ ":latest"

/-- Whether a name is one of an image's tags, its identifier or the short form of that. -/
def StoredImage.answersTo (name : String) (i : StoredImage) : Bool :=
  i.tags.any (fun t => t = Image.tagged name || t = name) || i.id.text = name || i.id.short = name

namespace Local

open DevEnv.Runtime (Call)

abbrev Act (α : Type) : Type := Action Runtime.interface α

/-- A call whose failure is looked at. -/
def attempt (c : Call) : Act (Except Runtime.Error c.Reply) := Action.ask (I := Runtime.interface) c

/-- A call whose failure ends the action. -/
def call (c : Call) : Act c.Reply := do Action.ofExcept .runtime (← attempt c)

/-- The filter for objects of this library. -/
def ownFilter : String := s!"{Label.vendorKey}={Label.vendor}"

/-- The results that are there, in order. -/
def readable {ε α : Type} (results : List (Except ε α)) : List α := results.filterMap Except.toOption

def environments : Act (List Environment) := do
  return readable ((← call (.list ownFilter)).map Environment.ofContainer)

/-- The container of an environment; a container without this library's mark is none. -/
def ownContainer (name : String) : Act Container := do
  match ← attempt (.inspect name) with
  | .ok c => if Label.isOwned c.labels then return c else throw (.environmentNotFound name)
  | .error (.notFound _) => throw (.environmentNotFound name)
  | .error e => throw (.runtime e)

def environment (name : String) : Act Environment := do
  Action.ofExcept .label (Environment.ofContainer (← ownContainer name))

def images : Act (List Image) := do
  return readable ((← call (.listImages ownFilter)).map Image.ofStored)

/-- The first image listed that answers to a name. -/
def storedImage (name : String) : Act StoredImage := do
  match (← call (.listImages ownFilter)).find? (·.answersTo name) with
  | some i => return i
  | none => throw (.imageNotFound name)

def image (name : String) : Act Image := do
  Action.ofExcept .label (Image.ofStored (← storedImage name))

def imageGraph (name : String) : Act (Option Graph) := do
  Action.ofExcept .label (Label.graph (← storedImage name).labels)

def imageDependency (name : String) : Act Dependency := do return (← image name).manifest.dependency

def dependency (name : String) : Act Dependency := do return (← environment name).manifest.dependency

/-- The names of services by container port; those that a graph gives come before the usual ones. -/
def serviceNames (g : Option Graph) : SortedMap UInt16 String :=
  let given := ((g.elim [] (·.exposures)).filter (·.service ≠ "")).map fun e => (e.containerPort, e.service)
  .ofList ([(sshPort, sshService), (jupyterPort, jupyterService), (rstudioPort, rstudioService)] ++ given)

/-- A binding under the name of the service behind it. -/
def named (names : SortedMap UInt16 String) (b : Container.Binding) : PortBinding :=
  { name := (names.get? b.containerPort).getD ("port-" ++ Text.ofNat b.containerPort.toNat)
    port := b.containerPort, protocol := b.protocol, hostIp := b.hostIp, hostPort := b.hostPort }

def ports (name : String) : Act (List PortBinding) := do
  let c ← ownContainer name
  let g ← Action.ofExcept .label (Label.graph c.labels)
  return c.bindings.map (named (serviceNames g))

end Local
end DevEnv
