import DevEnv.Gpu.Device
import DevEnv.Identifier
import DevEnv.Status
import DevEnv.View

/-! Containers and images as a container runtime knows them. -/
namespace DevEnv

/-- Labels of a container or image. -/
abbrev Labels := SortedMap String String

/-- A directory of the host shown inside a container. -/
structure Container.Mount where
  source : String
  target : String
  readOnly : Bool := false
  deriving DecidableEq, Repr, Inhabited

/-- A container port bound to a port of the host. -/
structure Container.Binding where
  containerPort : UInt16
  protocol : String
  hostIp : String
  hostPort : UInt16
  deriving DecidableEq, Repr, Inhabited

/-- Everything a container is created from. -/
structure Container.Spec where
  name : String := ""
  image : String := ""
  workdir : String := ""
  labels : Labels := ∅
  exposed : List UInt16 := []
  bindings : List Container.Binding := []
  mounts : List Container.Mount := []
  restartPolicy : String := ""
  sharedMemory : Option UInt64 := none
  devices : List Gpu.Device := []
  cpus : Option String := none
  cpuSet : Option String := none
  memory : Option String := none
  deriving DecidableEq, Inhabited

/-- What a runtime tells about a container. -/
structure Container where
  id : Identifier
  name : String
  image : String
  status : Status
  labels : Labels
  bindings : List Container.Binding
  address : String
  deriving DecidableEq, Inhabited

/-- What a runtime tells about an image. -/
structure StoredImage where
  id : Identifier
  tags : List String
  size : UInt64
  created : Option Timestamp
  labels : Labels
  deriving DecidableEq, Inhabited

namespace Container

def isRunning (c : Container) : Bool := c.status = .running

def Binding.tcp (containerPort : UInt16) (hostIp : String) (hostPort : UInt16) : Binding :=
  ⟨containerPort, "tcp", hostIp, hostPort⟩

def Mount.toJson (m : Mount) : Json :=
  .record [("source", .ofString m.source), ("target", .ofString m.target), ("read_only", .bool m.readOnly)]

def Mount.ofJson? (j : Json) : Option Mount := do
  match ← j.slots? ["source", "target", "read_only"] with
  | [source, target, readOnly] =>
    return {
      source := ← source.required Json.asString?
      target := ← target.required Json.asString?
      readOnly := ← readOnly.defaulted false Json.asBool? }
  | _ => none

def Binding.toJson (b : Binding) : Json :=
  .record [("container_port", .ofNat b.containerPort.toNat), ("protocol", .ofString b.protocol),
    ("host_ip", .ofString b.hostIp), ("host_port", .ofNat b.hostPort.toNat)]

def Binding.ofJson? (j : Json) : Option Binding := do
  match ← j.slots? ["container_port", "protocol", "host_ip", "host_port"] with
  | [containerPort, protocol, hostIp, hostPort] =>
    return {
      containerPort := ← containerPort.required Json.asUInt16?
      protocol := ← protocol.required Json.asString?
      hostIp := ← hostIp.required Json.asString?
      hostPort := ← hostPort.required Json.asUInt16? }
  | _ => none

def Spec.fields : List String :=
  ["name", "image", "working_dir", "labels", "exposed_ports", "port_bindings", "mounts", "restart_policy",
    "shm_size_bytes", "device_requests", "cpus", "cpuset", "memory"]

def Spec.toJson (s : Spec) : Json :=
  let text := Json.ofOption Json.ofString
  .record [
    ("name", .ofString s.name),
    ("image", .ofString s.image),
    ("working_dir", .ofString s.workdir),
    ("labels", Json.ofTexts s.labels),
    ("exposed_ports", Json.ofList (fun p : UInt16 => .ofNat p.toNat) s.exposed),
    ("port_bindings", Json.ofList Binding.toJson s.bindings),
    ("mounts", Json.ofList Mount.toJson s.mounts),
    ("restart_policy", .ofString s.restartPolicy),
    ("shm_size_bytes", Json.ofOption (fun n : UInt64 => .ofNat n.toNat) s.sharedMemory),
    ("device_requests", Json.ofList Gpu.Device.toJson s.devices),
    ("cpus", text s.cpus),
    ("cpuset", text s.cpuSet),
    ("memory", text s.memory)]

def Spec.ofJson? (j : Json) : Option Spec := do
  match ← j.slots? Spec.fields with
  | [name, image, workdir, labels, exposed, bindings, mounts, restartPolicy, sharedMemory, devices, cpus, cpuSet,
      memory] =>
    return {
      name := ← name.required Json.asString?
      image := ← image.required Json.asString?
      workdir := ← workdir.required Json.asString?
      labels := ← labels.required Json.asTexts?
      exposed := ← exposed.required (Json.asList? Json.asUInt16?)
      bindings := ← bindings.required (Json.asList? Binding.ofJson?)
      mounts := ← mounts.required (Json.asList? Mount.ofJson?)
      restartPolicy := ← restartPolicy.required Json.asString?
      sharedMemory := ← sharedMemory.optional Json.asUInt64?
      devices := ← devices.required (Json.asList? Gpu.Device.ofJson?)
      cpus := ← cpus.optional Json.asString?
      cpuSet := ← cpuSet.optional Json.asString?
      memory := ← memory.optional Json.asString? }
  | _ => none

def toJson (c : Container) : Json :=
  .record [("id", c.id.toJson), ("name", .ofString c.name), ("image", .ofString c.image),
    ("status", c.status.toJson), ("labels", Json.ofTexts c.labels),
    ("port_bindings", Json.ofList Binding.toJson c.bindings), ("ip_address", .ofString c.address)]

def ofJson? (j : Json) : Option Container := do
  match ← j.slots? ["id", "name", "image", "status", "labels", "port_bindings", "ip_address"] with
  | [id, name, image, status, labels, bindings, address] =>
    return {
      id := ← id.required Identifier.ofJson?
      name := ← name.required Json.asString?
      image := ← image.required Json.asString?
      status := ← status.required Status.ofJson?
      labels := ← labels.required Json.asTexts?
      bindings := ← bindings.required (Json.asList? Binding.ofJson?)
      address := ← address.required Json.asString? }
  | _ => none

end Container

namespace StoredImage

def toJson (i : StoredImage) : Json :=
  .record [("id", i.id.toJson), ("repo_tags", Json.ofList Json.ofString i.tags), ("size", .ofNat i.size.toNat),
    ("created", Json.ofOption Timestamp.toJson i.created), ("labels", Json.ofTexts i.labels)]

def ofJson? (j : Json) : Option StoredImage := do
  match ← j.slots? ["id", "repo_tags", "size", "created", "labels"] with
  | [id, tags, size, created, labels] =>
    return {
      id := ← id.required Identifier.ofJson?
      tags := ← tags.required (Json.asList? Json.asString?)
      size := ← size.required Json.asUInt64?
      created := ← created.optional Timestamp.ofJson?
      labels := ← labels.required Json.asTexts? }
  | _ => none

end StoredImage
end DevEnv
