import DevEnv.SortedMap
import DevEnv.Json.Printer
import DevEnv.Json.Reader

/-! Reading typed values out of JSON trees. A record is an object with named fields or the array of its fields in order;
members that no field asks for are passed over unread. -/
namespace DevEnv.Json

def asBool? : Json → Option Bool
  | .bool b => some b
  | _ => none

def asString? : Json → Option String
  | .string written => (unescape written).map String.ofList
  | _ => none

/-- An integer in a range, written without fraction and exponent. -/
def asInt? (low high : Int) : Json → Option Int
  | .number n => n.toInt?.filter fun i => low ≤ i && i ≤ high
  | _ => none

def asNat? (high : Nat) (j : Json) : Option Nat := (j.asInt? 0 high).map Int.toNat

def asUInt16? (j : Json) : Option UInt16 := (j.asNat? (UInt16.size - 1)).map Nat.toUInt16
def asUInt64? (j : Json) : Option UInt64 := (j.asNat? (UInt64.size - 1)).map Nat.toUInt64
def asInt64? (j : Json) : Option Int64 := (j.asInt? Int64.minValue.toInt Int64.maxValue.toInt).map Int64.ofInt

def asList? {α : Type} (item? : Json → Option α) : Json → Option (List α)
  | .array items => items.mapM item?
  | _ => none

/-- The members of an object with their keys read. -/
def members? : Json → Option (List (String × Json))
  | .object members => members.mapM fun m => (unescape m.1).map fun k => (String.ofList k, m.2)
  | _ => none

/-- A map of texts; of equal keys the last one counts. -/
def asTexts? (j : Json) : Option (SortedMap String String) := do
  let members ← j.members?
  let entries ← members.mapM fun m => (m.2.asString?).map fun v => (m.1, v)
  return .ofList entries

/-- A value or nothing, which is written as null. -/
def asOption? {α : Type} (value? : Json → Option α) : Json → Option (Option α)
  | .null => some none
  | j => (value? j).map some

/-- What a text says about one field of a record: its value, nothing, or that the record ended before. -/
inductive Slot where
  | given (j : Json)
  | absent
  | cutOff

namespace Slot
variable {α : Type}

/-- A field that has to be there. -/
def required (value? : Json → Option α) : Slot → Option α
  | .given j => value? j
  | _ => none

/-- A field that may be absent or null. -/
def optional (value? : Json → Option α) : Slot → Option (Option α)
  | .given j => asOption? value? j
  | .absent => some none
  | .cutOff => none

/-- A field that has a value of its own where none is given. -/
def defaulted (fallback : α) (value? : Json → Option α) : Slot → Option α
  | .given j => value? j
  | _ => some fallback

end Slot

/-- The slots of the named fields among the members; no field may occur twice. -/
def memberSlots? (fields : List String) (members : List (String × Json)) : Option (List Slot) :=
  if fields.all fun f => members.countP (·.1 = f) ≤ 1 then
    some (fields.map fun f => match members.lookup f with
      | some j => .given j
      | none => .absent)
  else none

/-- The slots of a record's fields. -/
def slots? (fields : List String) : Json → Option (List Slot)
  | .object members => (members? (.object members)).bind (memberSlots? fields)
  | .array items =>
    if items.length ≤ fields.length then
      some (items.map .given ++ List.replicate (fields.length - items.length) .cutOff)
    else none
  | _ => none

/-- The slots of a record that knows no further members. -/
def closedSlots? (fields : List String) : Json → Option (List Slot)
  | .object members => do
    let members ← members? (.object members)
    if members.all fun m => fields.contains m.1 then memberSlots? fields members else none
  | j => slots? fields j

mutual

/-- Whether every part of a value can be kept: strings and keys have characters, numbers are finite,
and arrays and objects are nested no deeper than the limit. -/
def isKept (limit : Nat) : Json → Bool
  | .null => true
  | .bool _ => true
  | .number n => n.isKept
  | .string written => (unescape written).isSome
  | .array items => 0 < limit && keptItems (limit - 1) items
  | .object members => 0 < limit && keptMembers (limit - 1) members

def keptItems (limit : Nat) : List Json → Bool
  | [] => true
  | item :: items => isKept limit item && keptItems limit items

def keptMembers (limit : Nat) : List (List Char × Json) → Bool
  | [] => true
  | (key, value) :: members => (unescape key).isSome && isKept limit value && keptMembers limit members

end

/-- The deepest nesting of a value that is kept. -/
def depthLimit : Nat := 127

/-- A text whose whole value is kept. -/
def readKept? (s : String) : Option Json := (read? s).filter (isKept depthLimit)

/-- Splits an object into the slots of the record's own fields and the object of all other members,
which a part of the record reads and which is kept therefore. -/
def flattened? (fields : List String) : Json → Option (List Slot × Json)
  | .object members => do
    let keyed ← members? (.object members)
    let slots ← memberSlots? fields keyed
    let others := (members.zip keyed).filterMap fun m => if fields.contains m.2.1 then none else some m.1
    if keptMembers (depthLimit - 1) others then some (slots, .object others) else none
  | _ => none

/-- The value under a key of an object; of equal keys the last one counts. -/
def member? (key : String) (j : Json) : Option Json :=
  j.members?.bind fun members => members.reverse.lookup key

/-- The text at the end of a path of keys; empty where there is none. -/
def textAt (path : List String) (j : Json) : String :=
  ((path.foldlM (fun (j : Json) key => member? key j) j).bind asString?).getD ""

def ofOption {α : Type} (f : α → Json) : Option α → Json
  | some a => f a
  | none => .null

def ofList {α : Type} (f : α → Json) (as : List α) : Json := .array (as.map f)

def ofTexts (m : SortedMap String String) : Json := record (m.entries.map fun e => (e.1, ofString e.2))

end DevEnv.Json
