import DevEnv.Text.Record
import DevEnv.Text.Split
import DevEnv.Json.Decode

/-! Requests for GPU devices and their form on the command line of a container runtime:
one record of comma-separated fields. -/
namespace DevEnv.Gpu

/-- A request for devices: so many of them, or the ones listed, with what they have to be capable of. -/
structure Device where
  driver : String
  /-- The number of devices; below zero all of them, zero when they are listed. -/
  count : Int64
  ids : List String := []
  capabilities : List (List String)
  options : SortedMap String String := ∅
  deriving DecidableEq

namespace Device

def defaultDriver : String := "nvidia"

/-- The capability that the runtime adds by itself. -/
def ownCapability : String := "gpu"

def defaultCapabilities : List String :=
  ["nvidia", "compute", "compat32", "graphics", "utility", "video", "display", ownCapability]

/-- The request for a number of devices that says nothing else. -/
def ofCount (count : Int64) : Device :=
  { driver := defaultDriver, count, capabilities := [defaultCapabilities] }

/-- The field that says which devices. -/
def selection (d : Device) : String :=
  if d.ids.isEmpty then
    if d.count < 0 then "all" else "count=" ++ Text.ofInt d.count.toInt
  else "device=" ++ Text.join ',' d.ids

/-- The fields of a request on the command line. -/
def fields (d : Device) : List String :=
  let capabilities := d.capabilities.flatten.filter (· ≠ ownCapability)
  [d.selection] ++
    (if d.driver = "" then [] else ["driver=" ++ d.driver]) ++
    (if capabilities.isEmpty then [] else ["capabilities=" ++ Text.join ',' capabilities]) ++
    if d.options.isEmpty then []
    else ["options=" ++ Text.join ',' (d.options.entries.map fun e => e.1 ++ "=" ++ e.2)]

/-- A request as one record. -/
def render (d : Device) : String := Text.join ',' (d.fields.map Text.Record.quote)

def toJson (d : Device) : Json :=
  .record ([("driver", .ofString d.driver), ("count", .ofInt d.count.toInt)] ++
    (if d.ids.isEmpty then [] else [("device_ids", Json.ofList Json.ofString d.ids)]) ++
    [("capabilities", Json.ofList (Json.ofList Json.ofString) d.capabilities),
      ("options", Json.ofTexts d.options)])

def ofJson? (j : Json) : Option Device := do
  match ← j.slots? ["driver", "count", "device_ids", "capabilities", "options"] with
  | [driver, count, ids, capabilities, options] =>
    return {
      driver := ← driver.required Json.asString?
      count := ← count.required Json.asInt64?
      ids := ← ids.defaulted [] (Json.asList? Json.asString?)
      capabilities := ← capabilities.required (Json.asList? (Json.asList? Json.asString?))
      options := ← options.defaulted ∅ Json.asTexts? }
  | _ => none

end Device
end DevEnv.Gpu
