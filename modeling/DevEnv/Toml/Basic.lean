/-! TOML documents as tables of values. A table remembers how it came about,
since that decides whether a later part of the document may add to it. -/
namespace DevEnv

/-- How a table came about. -/
inductive Toml.Origin where
  /-- Written between braces, and so complete. -/
  | braces
  /-- Opened by a header of its own, or the whole document. -/
  | header
  /-- On the way to the table of a header. -/
  | passed
  /-- On the way to a key with dots. -/
  | dotted
  deriving DecidableEq, Repr

/-- A value of a document; only the kind of numbers and dates is kept. -/
inductive Toml where
  | string (s : String)
  | integer
  | float
  | boolean
  | datetime
  | array (items : List Toml)
  | table (origin : Toml.Origin) (members : List (String × Toml))
  /-- The tables of a repeated header, the last one first. -/
  | tables (items : List (List (String × Toml)))
  deriving Repr, Inhabited

namespace Toml

abbrev Members : Type := List (String × Toml)

/-- Puts a value under a key: in place of the one there, or else at the end. -/
def put (key : String) (value : Toml) : Members → Members
  | [] => [(key, value)]
  | m :: rest => if m.1 = key then (key, value) :: rest else m :: put key value rest

/-- Changes the table at the end of a path, and makes the tables on the way that are missing. With dots,
the way does not lead through tables that have a header; in no case through a complete one. -/
def change (onTheWay : Origin) (f : Origin → Members → Option (Origin × Members)) :
    List String → Origin → Members → Option (Origin × Members)
  | [], origin, members => f origin members
  | key :: path, origin, members =>
    match members.lookup key with
    | none => do
      let (o, ms) ← change onTheWay f path onTheWay []
      return (origin, members ++ [(key, .table o ms)])
    | some (.table inner below) =>
      if inner = .braces || (onTheWay = .dotted && inner = .header) then none
      else do
        let (o, ms) ← change onTheWay f path inner below
        return (origin, put key (.table o ms) members)
    | some (.tables (last :: others)) => do
      let (_, ms) ← change onTheWay f path .header last
      return (origin, put key (.tables (ms :: others)) members)
    | some _ => none

/-- Adds a value under a new key, at the end of a path of keys with dots. -/
def assign (path : List String) (key : String) (value : Toml) (members : Members) : Option Members := do
  let (_, ms) ← change .dotted
    (fun origin ms =>
      if decide (origin = .dotted) = path.isEmpty || (ms.lookup key).isSome then none
      else some (origin, ms ++ [(key, value)]))
    path .header members
  return ms

/-- Opens the table of a header. It may be one that was only passed so far. -/
def openTable (path : List String) (key : String) (members : Members) : Option Members := do
  let (_, ms) ← change .passed
    (fun origin ms =>
      match ms.lookup key with
      | none => some (origin, ms ++ [(key, .table .header [])])
      | some (.table .passed below) => some (origin, put key (.table .header below) ms)
      | some _ => none)
    path .header members
  return ms

/-- Opens a further table of a repeated header. -/
def openFurther (path : List String) (key : String) (members : Members) : Option Members := do
  let (_, ms) ← change .passed
    (fun origin ms =>
      match ms.lookup key with
      | none => some (origin, ms ++ [(key, .tables [[]])])
      | some (.tables items) => some (origin, put key (.tables ([] :: items)) ms)
      | some _ => none)
    path .header members
  return ms

/-- Adds a value to the table of the header that was opened last. -/
def assignUnder (opened path : List String) (key : String) (value : Toml) (members : Members) : Option Members := do
  let (_, ms) ← change .passed (fun origin ms => (assign path key value ms).map (origin, ·)) opened .header members
  return ms

end Toml
end DevEnv
