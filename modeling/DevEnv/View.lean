import DevEnv.Identifier
import DevEnv.Status
import DevEnv.Time.Timestamp

/-! What callers see of environments and images. A view takes its build facts into its own record. -/
namespace DevEnv

/-- The packages an image was built with. -/
structure Dependency where
  apt : List String := []
  pypi : List String := []
  r : List String := []
  deriving DecidableEq, Repr, Inhabited

/-- What was recorded when an image was built; its containers share it. -/
structure Manifest where
  gpu : Bool
  cuda : Option String
  cudnn : Option String
  buildContext : Option String
  dependency : Dependency
  deriving DecidableEq, Repr, Inhabited

structure Environment where
  name : String
  image : String
  status : Status
  sshPort : UInt16
  jupyter : Option String
  rstudio : Option String
  manifest : Manifest
  deriving DecidableEq, Repr, Inhabited

structure Image where
  /-- The first tag, or a mark for an image without tags. -/
  reference : String
  id : Identifier
  tags : List String
  size : UInt64
  created : Option Timestamp
  manifest : Manifest
  deriving DecidableEq, Repr, Inhabited

/-- A host port that leads into an environment, under the name of the service behind it. -/
structure PortBinding where
  name : String
  port : UInt16
  protocol : String
  hostIp : String
  hostPort : UInt16
  deriving DecidableEq, Repr, Inhabited

/-- A service of a started environment and its host port. -/
structure ServicePort where
  name : String
  port : UInt16
  deriving DecidableEq, Repr, Inhabited

/-- How a started environment is reached. -/
structure Started where
  sshPort : UInt16
  address : String
  name : String
  ports : List ServicePort
  deriving DecidableEq, Repr, Inhabited

def Dependency.isEmpty (d : Dependency) : Bool := d.apt.isEmpty && d.pypi.isEmpty && d.r.isEmpty

def Dependency.toJson (d : Dependency) : Json :=
  let texts := Json.ofList Json.ofString
  .record [("apt_packages", texts d.apt), ("pypi_packages", texts d.pypi), ("r_packages", texts d.r)]

def Dependency.ofJson? (j : Json) : Option Dependency := do
  let texts := Json.asList? Json.asString?
  match ← j.slots? ["apt_packages", "pypi_packages", "r_packages"] with
  | [apt, pypi, r] => return ⟨← apt.required texts, ← pypi.required texts, ← r.required texts⟩
  | _ => none

namespace Manifest

def members (m : Manifest) : List (String × Json) :=
  let text := Json.ofOption Json.ofString
  [("gpu", .bool m.gpu), ("cuda", text m.cuda), ("cudnn", text m.cudnn), ("build_context", text m.buildContext),
    ("dependency", m.dependency.toJson)]

def toJson (m : Manifest) : Json := .record m.members

def ofJson? (j : Json) : Option Manifest := do
  match ← j.slots? ["gpu", "cuda", "cudnn", "build_context", "dependency"] with
  | [gpu, cuda, cudnn, buildContext, dependency] =>
    return {
      gpu := ← gpu.required Json.asBool?
      cuda := ← cuda.optional Json.asString?
      cudnn := ← cudnn.optional Json.asString?
      buildContext := ← buildContext.optional Json.asString?
      dependency := ← dependency.required Dependency.ofJson? }
  | _ => none

end Manifest

namespace Environment

def toJson (e : Environment) : Json :=
  let text := Json.ofOption Json.ofString
  .record ([("name", .ofString e.name), ("image", .ofString e.image), ("status", e.status.toJson),
    ("ssh_port", .ofNat e.sshPort.toNat), ("jupyter_addr", text e.jupyter), ("rstudio_addr", text e.rstudio)] ++
    e.manifest.members)

def ofJson? (j : Json) : Option Environment := do
  let (slots, others) ← j.flattened? ["name", "image", "status", "ssh_port", "jupyter_addr", "rstudio_addr"]
  match slots with
  | [name, image, status, sshPort, jupyter, rstudio] =>
    return {
      name := ← name.required Json.asString?
      image := ← image.required Json.asString?
      status := ← status.required Status.ofJson?
      sshPort := ← sshPort.required Json.asUInt16?
      jupyter := ← jupyter.optional Json.asString?
      rstudio := ← rstudio.optional Json.asString?
      manifest := ← Manifest.ofJson? others }
  | _ => none

end Environment

def Timestamp.toJson (t : Timestamp) : Json := .ofString t.render

def Timestamp.ofJson? (j : Json) : Option Timestamp := j.asString?.bind readRelaxed

namespace Image

def toJson (i : Image) : Json :=
  .record ([("reference", .ofString i.reference), ("id", i.id.toJson), ("tags", Json.ofList Json.ofString i.tags),
    ("size", .ofNat i.size.toNat), ("created", Json.ofOption Timestamp.toJson i.created)] ++ i.manifest.members)

def ofJson? (j : Json) : Option Image := do
  let (slots, others) ← j.flattened? ["reference", "id", "tags", "size", "created"]
  match slots with
  | [reference, id, tags, size, created] =>
    return {
      reference := ← reference.required Json.asString?
      id := ← id.required Identifier.ofJson?
      tags := ← tags.required (Json.asList? Json.asString?)
      size := ← size.required Json.asUInt64?
      created := ← created.optional Timestamp.ofJson?
      manifest := ← Manifest.ofJson? others }
  | _ => none

end Image

def PortBinding.toJson (b : PortBinding) : Json :=
  .record [("name", .ofString b.name), ("port", .ofNat b.port.toNat), ("protocol", .ofString b.protocol),
    ("host_ip", .ofString b.hostIp), ("host_port", .ofNat b.hostPort.toNat)]

def PortBinding.ofJson? (j : Json) : Option PortBinding := do
  match ← j.slots? ["name", "port", "protocol", "host_ip", "host_port"] with
  | [name, port, protocol, hostIp, hostPort] =>
    return {
      name := ← name.required Json.asString?
      port := ← port.required Json.asUInt16?
      protocol := ← protocol.required Json.asString?
      hostIp := ← hostIp.required Json.asString?
      hostPort := ← hostPort.required Json.asUInt16? }
  | _ => none

def ServicePort.toJson (p : ServicePort) : Json :=
  .record [("name", .ofString p.name), ("port", .ofNat p.port.toNat)]

def ServicePort.ofJson? (j : Json) : Option ServicePort := do
  match ← j.slots? ["name", "port"] with
  | [name, port] => return ⟨← name.required Json.asString?, ← port.required Json.asUInt16?⟩
  | _ => none

def Started.toJson (s : Started) : Json :=
  .record [("ssh_port", .ofNat s.sshPort.toNat), ("address", .ofString s.address), ("name", .ofString s.name),
    ("ports", Json.ofList ServicePort.toJson s.ports)]

def Started.ofJson? (j : Json) : Option Started := do
  match ← j.slots? ["ssh_port", "address", "name", "ports"] with
  | [sshPort, address, name, ports] =>
    return {
      sshPort := ← sshPort.required Json.asUInt16?
      address := ← address.required Json.asString?
      name := ← name.required Json.asString?
      ports := ← ports.required (Json.asList? ServicePort.ofJson?) }
  | _ => none

end DevEnv
