import DevEnv.Container
import DevEnv.Program
import DevEnv.Runtime.Error

/-! The calls that a container runtime takes. Objects are called by name;
lists are filtered by one label, given as a key with or without its value. -/
namespace DevEnv.Runtime

/-- What a runtime tells about itself. -/
structure Info where
  name : String := ""
  serverVersion : String := ""
  os : String := ""
  kernel : String := ""
  defaultRuntime : String := ""
  cpus : UInt64 := 0
  memory : UInt64 := 0
  /-- The low-level runtimes that are registered, with the paths of their programs. -/
  runtimes : SortedMap String String := ∅
  deriving DecidableEq, Inhabited

namespace Info

def toJson (i : Info) : Json :=
  .record [("name", .ofString i.name), ("server_version", .ofString i.serverVersion),
    ("operating_system", .ofString i.os), ("kernel_version", .ofString i.kernel),
    ("default_runtime", .ofString i.defaultRuntime), ("ncpu", .ofNat i.cpus.toNat),
    ("mem_total", .ofNat i.memory.toNat), ("runtimes", Json.ofTexts i.runtimes)]

def ofJson? (j : Json) : Option Info := do
  match ← j.slots? ["name", "server_version", "operating_system", "kernel_version", "default_runtime", "ncpu",
      "mem_total", "runtimes"] with
  | [name, serverVersion, os, kernel, defaultRuntime, cpus, memory, runtimes] =>
    return {
      name := ← name.required Json.asString?
      serverVersion := ← serverVersion.required Json.asString?
      os := ← os.required Json.asString?
      kernel := ← kernel.required Json.asString?
      defaultRuntime := ← defaultRuntime.required Json.asString?
      cpus := ← cpus.required Json.asUInt64?
      memory := ← memory.required Json.asUInt64?
      runtimes := ← runtimes.required Json.asTexts? }
  | _ => none

end Info

inductive Call where
  | info
  | inspect (name : String)
  | create (spec : Container.Spec)
  | start (name : String)
  | pause (name : String)
  | unpause (name : String)
  | kill (name : String)
  | remove (name : String) (forced : Bool)
  | list (label : String)
  | inspectImage (reference : String)
  | listImages (label : String)
  | removeImage (reference : String)
  deriving DecidableEq

/-- What a call returns when it succeeds. -/
abbrev Call.Reply : Call → Type
  | info => Info
  | inspect _ => Container
  | create _ => Identifier
  | list _ => List Container
  | inspectImage _ => StoredImage
  | listImages _ => List StoredImage
  | start _ | pause _ | unpause _ | kill _ | remove .. | removeImage _ => Unit

def interface : Interface := ⟨Call, fun c => Except Error c.Reply⟩

end DevEnv.Runtime
