import DevEnv.Gpu.Device
import DevEnv.Text.Blank

/-! Reading GPU specifications: one record whose fields are a bare count or a key with a value.
Each key is given once, in any order. -/
namespace DevEnv.Gpu

inductive SpecError where
  | empty
  | quote (fault : Text.Record.Fault) (input : String)
  | invalidCount (text : String)
  | unknownKey (key field : String)
  | duplicateKey (key : String)
  | emptyDevices
  | invalidOption (text : String)
  | countWithDevices (count : Int64)
  deriving DecidableEq

/-- What is wrong with the quotes of a record. -/
def quoteMessage (input : String) : Text.Record.Fault → String
  | .unterminated => s!"unterminated quoted field in '{input}'"
  | .afterQuote c => s!"unexpected '{c}' after closing quote in '{input}'"
  | .bareQuote => s!"bare quote in unquoted field in '{input}'"

def SpecError.message : SpecError → String
  | empty => "GPU request must not be empty"
  | quote fault input => s!"malformed quoting in GPU request: {quoteMessage input fault}"
  | invalidCount text => s!"invalid count ({text}): expected an integer or 'all'"
  | unknownKey key field => s!"unexpected key '{key}' in '{field}'"
  | duplicateKey key => s!"GPU request key '{key}' can be specified only once"
  | emptyDevices => "GPU request 'device' needs at least one device id"
  | invalidOption text => s!"invalid GPU option '{text}', expected '<key>=<value>'"
  | countWithDevices count =>
    s!"GPU request cannot combine a count ({Text.ofInt count.toInt}) with explicit device ids"

namespace Spec

/-- The parts of a specification seen so far. -/
structure Draft where
  driver : Option String := none
  count : Option Int64 := none
  ids : Option (List String) := none
  capabilities : Option (List String) := none
  options : Option (SortedMap String String) := none

/-- All devices, or a number of them that is not negative. -/
def readCount (s : String) : Except SpecError Int64 :=
  if s = "all" then .ok (-1)
  else match Text.readInt64? s with
    | some n => if n < 0 then .error (.invalidCount s) else .ok n
    | none => .error (.invalidCount s)

/-- The pieces between commas, trimmed, without the empty ones. -/
def words (s : String) : List String := ((Text.pieces ',' s).map Text.trim).filter (· ≠ "")

def readIds (s : String) : Except SpecError (List String) :=
  if (words s).isEmpty then .error .emptyDevices else .ok (words s)

/-- The capabilities given, and the runtime's own one at the end unless it is among them. -/
def readCapabilities (s : String) : List String :=
  if (words s).contains Device.ownCapability then words s else words s ++ [Device.ownCapability]

def readOption (s : String) : Except SpecError (String × String) :=
  match Text.cut '=' s with
  | some entry => .ok entry
  | none => .error (.invalidOption s)

def readOptions (s : String) : Except SpecError (SortedMap String String) := do
  let entries ← ((Text.pieces ',' s).filter (· ≠ "")).mapM readOption
  return .ofList entries

/-- Sets a part that must not be set yet. -/
def once {α : Type} (key : String) (old : Option α) (new : Except SpecError α) : Except SpecError (Option α) :=
  if old.isSome then .error (.duplicateKey key) else new.map some

/-- Takes in one field. -/
def Draft.add (d : Draft) (field : String) : Except SpecError Draft :=
  match Text.cut '=' field with
  | none => return { d with count := ← once "count" d.count (readCount field) }
  | some (key, value) =>
    if key = "driver" then return { d with driver := ← once key d.driver (.ok value) }
    else if key = "count" then return { d with count := ← once key d.count (readCount value) }
    else if key = "device" then return { d with ids := ← once key d.ids (readIds value) }
    else if key = "capabilities" then
      return { d with capabilities := ← once key d.capabilities (.ok (readCapabilities value)) }
    else if key = "options" then return { d with options := ← once key d.options (readOptions value) }
    else .error (.unknownKey key field)

/-- The number of devices: none beside a list of them, one where nothing is said. -/
def Draft.total (d : Draft) : Except SpecError Int64 :=
  match d.ids with
  | some _ => if d.count.getD 0 = 0 then .ok 0 else .error (.countWithDevices (d.count.getD 0))
  | none => .ok (d.count.getD 1)

/-- The request a specification asks for. -/
def Draft.finish (d : Draft) : Except SpecError Device := do
  return {
    driver := d.driver.getD Device.defaultDriver
    count := ← d.total
    ids := d.ids.getD []
    capabilities := [d.capabilities.getD Device.defaultCapabilities]
    options := d.options.getD ∅ }

/-- The fields of a specification without the blanks around it. -/
def fields (spec : String) : Except SpecError (List String) :=
  match Text.Record.split (Text.trim spec) with
  | .ok fields => .ok fields
  | .error fault => .error (.quote fault (Text.trim spec))

def read (spec : String) : Except SpecError Device := do
  let fields ← fields spec
  if fields.isEmpty then throw .empty
  let draft ← fields.foldlM Draft.add {}
  draft.finish

end Spec
end DevEnv.Gpu
