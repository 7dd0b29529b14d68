import DevEnv.Json.Printer
import DevEnv.Proofs.Json.Grammar

/-! Values read back from the text that is written for them, on one line or over several. Both texts spell the tree,
for every tree whose numbers are integers and whose strings can stand between quotes. -/
namespace DevEnv.Json

/-- A tree that is read as it is written. -/
inductive Legible : Json → Prop where
  | null : Legible .null
  | bool (b : Bool) : Legible (.bool b)
  | number (i : Int) : Legible (.number (.ofInt i))
  | string {written : List Char} (h : Body written) : Legible (.string written)
  | array {items : List Json} (h : ∀ j ∈ items, Legible j) : Legible (.array items)
  | object {members : List (List Char × Json)} (keys : ∀ m ∈ members, Body m.1)
      (values : ∀ m ∈ members, Legible m.2) : Legible (.object members)

theorem numeral_ofInt (i : Int) : Numeral (Number.ofInt i) (Number.ofInt i).print := by
  have hnumeral : Numeral (Number.ofInt i) _ := .mk .none .none
  have hprint : (Number.ofInt i).print =
      (if (Number.ofInt i).negative then ['-'] else []) ++ (Text.digits (Number.ofInt i).whole ++ ([] ++ [])) := by
    simp [Number.print, Number.ofInt]
  exact hprint ▸ hnumeral

section Rows
variable {α β : Type} {f g : α → β} {as : List α}

/-- A list mapped with another function at its last member. -/
def lastApart (f g : α → β) : List α → List β
  | [] => []
  | [a] => [g a]
  | a :: b :: more => f a :: lastApart f g (b :: more)

theorem lastApart_ne_nil (h : as ≠ []) : lastApart f g as ≠ [] := by
  match as with
  | [] => exact absurd rfl h
  | [_] => exact List.cons_ne_nil _ _
  | _ :: _ :: _ => exact List.cons_ne_nil _ _

theorem map_lastApart {view : β → α} (hf : ∀ a, view (f a) = a) (hg : ∀ a, view (g a) = a) (as : List α) :
    (lastApart f g as).map view = as := by
  induction as with
  | nil => rfl
  | cons a as ih =>
    cases as with
    | nil => exact congrArg (· :: []) (hg a)
    | cons b more => exact congrArg₂ List.cons (hf a) ih

theorem mem_lastApart {b : β} (h : b ∈ lastApart f g as) : ∃ a ∈ as, b = f a ∨ b = g a := by
  induction as with
  | nil => cases h
  | cons a as ih =>
    cases as with
    | nil => exact ⟨a, List.mem_cons_self, .inr (List.mem_singleton.1 h)⟩
    | cons next more =>
      rcases List.mem_cons.1 h with h | h
      · exact ⟨a, List.mem_cons_self, .inl h⟩
      · obtain ⟨x, hx, hb⟩ := ih h
        exact ⟨x, List.mem_cons_of_mem a hx, hb⟩

/-- Rows written one by one, each further one after a comma, are rows joined. -/
theorem joinChars_lastApart (chars : β → List Char) (further : List α → List Char) (close : List Char)
    (hlast : ∀ a, chars (g a) ++ close = chars (f a) ++ further [])
    (hmore : ∀ a more, further (a :: more) = ',' :: (chars (f a) ++ further more)) (a : α) (more : List α) :
    Text.joinChars ',' ((lastApart f g (a :: more)).map chars) ++ close = chars (f a) ++ further more := by
  induction more generalizing a with
  | nil => exact hlast a
  | cons b more ih =>
    have hne : lastApart f g (b :: more) ≠ [] := lastApart_ne_nil (List.cons_ne_nil b more)
    obtain ⟨row, rows, hrows⟩ := List.exists_cons_of_ne_nil hne
    have hjoin : Text.joinChars ',' ((lastApart f g (a :: b :: more)).map chars) =
        chars (f a) ++ ',' :: Text.joinChars ',' ((lastApart f g (b :: more)).map chars) := by
      rw [lastApart, hrows]
      rfl
    rw [hjoin, List.append_assoc, List.cons_append, ih, hmore]

end Rows

section Layout
variable {items : List Json} {members : List (List Char × Json)} {p q k : Padding} {text : Json → List Char}

/-- The items of an array between blanks, the last one between others. -/
def rows (p q : Padding) (text : Json → List Char) (items : List Json) : List Item :=
  lastApart (fun j => ⟨p, j, text j⟩) (fun j => ⟨q, j, text j⟩) items

theorem spells_array (ne : items ≠ []) (h : ∀ j ∈ items, Spells j (text j)) :
    Spells (.array items) ('[' :: (Text.joinChars ',' ((rows p q text items).map Item.chars) ++ [']'])) := by
  have hvalues : (rows p q text items).map (·.value) = items :=
    map_lastApart (fun _ => rfl) (fun _ => rfl) items
  have hspells : ∀ i ∈ rows p q text items, Spells i.value i.text := fun i hi => by
    obtain ⟨j, hj, rfl | rfl⟩ := mem_lastApart hi <;> exact h j hj
  have hne : rows p q text items ≠ [] := lastApart_ne_nil ne
  have harray := Spells.array hne hspells
  rwa [hvalues] at harray

/-- The members of an object; `k` are the blanks around their keys. -/
def memberRows (k p q : Padding) (text : Json → List Char) (members : List (List Char × Json)) : List Member :=
  lastApart (fun m => ⟨k, m.1, p, m.2, text m.2⟩) (fun m => ⟨k, m.1, q, m.2, text m.2⟩) members

theorem spells_object (ne : members ≠ []) (keys : ∀ m ∈ members, Body m.1)
    (h : ∀ m ∈ members, Spells m.2 (text m.2)) :
    Spells (.object members)
      ('{' :: (Text.joinChars ',' ((memberRows k p q text members).map Member.chars) ++ ['}'])) := by
  have hvalues : (memberRows k p q text members).map (fun m => (m.key, m.item.value)) = members :=
    map_lastApart (fun _ => rfl) (fun _ => rfl) members
  have hkeys : ∀ m ∈ memberRows k p q text members, Body m.key := fun m hm => by
    obtain ⟨x, hx, rfl | rfl⟩ := mem_lastApart hm <;> exact keys x hx
  have hspells : ∀ m ∈ memberRows k p q text members, Spells m.item.value m.item.text := fun m hm => by
    obtain ⟨x, hx, rfl | rfl⟩ := mem_lastApart hm <;> exact h x hx
  have hne : memberRows k p q text members ≠ [] := lastApart_ne_nil ne
  have hobject := Spells.object hne hkeys hspells
  rwa [hvalues] at hobject

end Layout

section Texts
variable {j : Json}

theorem spells_compact (h : Legible j) : Spells j (compact j) := by
  induction h with
  | null => exact .null
  | bool b =>
    cases b with
    | true => exact .true
    | false => exact .false
  | number i => exact .number (numeral_ofInt i)
  | string h => exact .string h
  | @array items h ih =>
    cases items with
    | nil => exact .emptyArray blanks_nil
    | cons item items =>
      have hjoin := joinChars_lastApart Item.chars compactItems [']']
        (f := fun j => ⟨.none, j, compact j⟩) (g := fun j => ⟨.none, j, compact j⟩)
        (fun j => by simp [Item.chars, compactItems])
        (fun j more => by simp [Item.chars, compactItems]) item items
      have hspells := spells_array (p := .none) (q := .none) (List.cons_ne_nil item items) ih
      rw [rows, hjoin] at hspells
      simpa [compact, Item.chars] using hspells
  | @object members keys h ih =>
    cases members with
    | nil => exact .emptyObject blanks_nil
    | cons member members =>
      have hjoin := joinChars_lastApart Member.chars compactMembers ['}']
        (f := fun m => ⟨.none, m.1, .none, m.2, compact m.2⟩) (g := fun m => ⟨.none, m.1, .none, m.2, compact m.2⟩)
        (fun m => by simp [Member.chars, Item.chars, compactMembers])
        (fun m more => by simp [Member.chars, Item.chars, compactMembers, quoted])
        member members
      have hspells := spells_object (k := .none) (p := .none) (q := .none) (List.cons_ne_nil member members) keys ih
      rw [memberRows, hjoin] at hspells
      simpa [compact, Member.chars, Item.chars, quoted] using hspells

theorem blanks_indent (depth : Nat) : Blanks (indent depth) := by
  intro c hc
  rcases List.mem_cons.1 hc with rfl | hc
  · rfl
  · rw [List.eq_of_mem_replicate hc]
    rfl

theorem spells_pretty (h : Legible j) (depth : Nat) : Spells j (pretty depth j) := by
  induction h generalizing depth with
  | null => exact .null
  | bool b =>
    cases b with
    | true => exact .true
    | false => exact .false
  | number i => exact .number (numeral_ofInt i)
  | string h => exact .string h
  | @array items h ih =>
    cases items with
    | nil => exact .emptyArray blanks_nil
    | cons item items =>
      let inner : Padding := ⟨indent (depth + 1), [], blanks_indent _, blanks_nil⟩
      let last : Padding := ⟨indent (depth + 1), indent depth, blanks_indent _, blanks_indent _⟩
      have hjoin := joinChars_lastApart Item.chars (prettyItems depth) [']']
        (f := fun j => ⟨inner, j, pretty (depth + 1) j⟩) (g := fun j => ⟨last, j, pretty (depth + 1) j⟩)
        (fun j => by simp [Item.chars, Padding.around, inner, last, prettyItems])
        (fun j more => by simp [Item.chars, Padding.around, inner, prettyItems]) item items
      have hspells := spells_array (p := inner) (q := last) (List.cons_ne_nil item items)
        fun j hj => ih j hj (depth + 1)
      rw [rows, hjoin] at hspells
      simpa [pretty, Item.chars, Padding.around, inner] using hspells
  | @object members keys h ih =>
    cases members with
    | nil => exact .emptyObject blanks_nil
    | cons member members =>
      let key : Padding := ⟨indent (depth + 1), [], blanks_indent _, blanks_nil⟩
      let inner : Padding := ⟨[' '], [], by decide, blanks_nil⟩
      let last : Padding := ⟨[' '], indent depth, by decide, blanks_indent _⟩
      have hjoin := joinChars_lastApart Member.chars (prettyMembers depth) ['}']
        (f := fun m => ⟨key, m.1, inner, m.2, pretty (depth + 1) m.2⟩)
        (g := fun m => ⟨key, m.1, last, m.2, pretty (depth + 1) m.2⟩)
        (fun m => by simp [Member.chars, Item.chars, Padding.around, inner, last, prettyMembers])
        (fun m more => by simp [Member.chars, Item.chars, Padding.around, key, inner, prettyMembers, quoted])
        member members
      have hspells := spells_object (k := key) (p := inner) (q := last) (List.cons_ne_nil member members) keys
        fun m hm => ih m hm (depth + 1)
      rw [memberRows, hjoin] at hspells
      simpa [pretty, Member.chars, Item.chars, Padding.around, key, inner, quoted] using hspells

theorem read?_of_spells {cs : List Char} (h : Spells j cs) : read? (String.ofList cs) = some j := by
  have hread := readChars_of_spells h .none
  rw [read?, String.toList_ofList]
  simpa using hread

theorem read?_compactText (h : Legible j) : read? j.compactText = some j := read?_of_spells (spells_compact h)

theorem read?_prettyText (h : Legible j) : read? j.prettyText = some j := read?_of_spells (spells_pretty h 0)

end Texts

end DevEnv.Json
