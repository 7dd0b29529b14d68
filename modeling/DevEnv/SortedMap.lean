/-! Finite maps kept as entries in strictly ascending key order.
Maps with the same entries are equal, so a map has one written form. -/
namespace DevEnv

/-- A finite map: its entries, smallest key first, each key once. -/
structure SortedMap (κ υ : Type) [LT κ] where
  entries : List (κ × υ)
  ascending : entries.Pairwise (fun a b => a.1 < b.1)

namespace SortedMap
variable {κ υ : Type} [LT κ]

theorem ext_entries {m n : SortedMap κ υ} (h : m.entries = n.entries) : m = n := by
  cases m; cases n; cases h; rfl

instance [DecidableEq κ] [DecidableEq υ] : DecidableEq (SortedMap κ υ) := fun m n =>
  if h : m.entries = n.entries then isTrue (ext_entries h)
  else isFalse fun e => h (congrArg entries e)

def empty : SortedMap κ υ := ⟨[], .nil⟩

instance : EmptyCollection (SortedMap κ υ) := ⟨empty⟩
instance : Inhabited (SortedMap κ υ) := ⟨empty⟩

def isEmpty (m : SortedMap κ υ) : Bool := m.entries.isEmpty

def keys (m : SortedMap κ υ) : List κ := m.entries.map (·.1)

def values (m : SortedMap κ υ) : List υ := m.entries.map (·.2)

/-- The value filed under a key. -/
def get? [DecidableEq κ] (m : SortedMap κ υ) (k : κ) : Option υ :=
  (m.entries.find? (fun e => e.1 = k)).map (·.2)

def contains [DecidableEq κ] (m : SortedMap κ υ) (k : κ) : Bool := (m.get? k).isSome

/-- Files a value in its place; a value already under the key gives way. -/
def insertEntry [DecidableLT κ] (k : κ) (v : υ) : List (κ × υ) → List (κ × υ)
  | [] => [(k, v)]
  | e :: rest =>
    if k < e.1 then (k, v) :: e :: rest
    else if e.1 < k then e :: insertEntry k v rest
    else (k, v) :: rest

private theorem above_insertEntry [DecidableLT κ] {x k : κ} {v : υ} {es : List (κ × υ)} (hk : x < k)
    (h : ∀ e ∈ es, x < e.1) : ∀ e ∈ insertEntry k v es, x < e.1 := by
  induction es with
  | nil => simpa [insertEntry] using hk
  | cons e rest ih =>
    have hr := ih fun e' he' => h e' (List.mem_cons_of_mem _ he')
    have he := h e List.mem_cons_self
    unfold insertEntry
    split
    · simpa using ⟨hk, he, fun a b hab => h (a, b) (List.mem_cons_of_mem _ hab)⟩
    · split
      · intro e' he'
        rcases List.mem_cons.1 he' with rfl | he'
        · exact he
        · exact hr e' he'
      · simpa using ⟨hk, fun a b hab => h (a, b) (List.mem_cons_of_mem _ hab)⟩

section Order
variable [LE κ] [Std.IsLinearOrder κ] [Std.LawfulOrderLT κ] [DecidableLT κ]

private theorem pairwise_insertEntry (k : κ) (v : υ) {es : List (κ × υ)}
    (h : es.Pairwise (fun a b => a.1 < b.1)) :
    (insertEntry k v es).Pairwise (fun a b => a.1 < b.1) := by
  induction es with
  | nil => simp [insertEntry]
  | cons e rest ih =>
    have ⟨he, hr⟩ := List.pairwise_cons.1 h
    unfold insertEntry
    split
    · next hk =>
      refine List.pairwise_cons.2 ⟨?_, h⟩
      intro e' he'
      rcases List.mem_cons.1 he' with rfl | he'
      · exact hk
      · exact Std.lt_trans hk (he e' he')
    · split
      · next hk => exact List.pairwise_cons.2 ⟨above_insertEntry hk he, ih hr⟩
      · next hk hk' =>
        have e : k = e.1 := Std.le_antisymm (Std.not_lt.1 hk') (Std.not_lt.1 hk)
        exact List.pairwise_cons.2 ⟨fun e' he' => e ▸ he e' he', hr⟩

/-- Files a value under a key, in place of any value there. -/
def insert (m : SortedMap κ υ) (k : κ) (v : υ) : SortedMap κ υ :=
  ⟨insertEntry k v m.entries, pairwise_insertEntry k v m.ascending⟩

/-- Files the entries one after the other; of equal keys the last one stays. -/
def insertAll (m : SortedMap κ υ) (es : List (κ × υ)) : SortedMap κ υ :=
  es.foldl (fun m e => m.insert e.1 e.2) m

def ofList (es : List (κ × υ)) : SortedMap κ υ := insertAll empty es

/-- Lays one map over another: its values take precedence. -/
def overlay (m top : SortedMap κ υ) : SortedMap κ υ := m.insertAll top.entries

end Order

/-- Keeps the entries that pass a test. -/
def filter (p : κ → υ → Bool) (m : SortedMap κ υ) : SortedMap κ υ :=
  ⟨m.entries.filter (fun e => p e.1 e.2), m.ascending.filter _⟩

def erase [DecidableEq κ] (m : SortedMap κ υ) (k : κ) : SortedMap κ υ :=
  m.filter fun k' _ => k' ≠ k

end SortedMap
end DevEnv
