/-! Cutting a text at a character and joining pieces with one.
Cutting at every occurrence and joining again gives the text back. -/
namespace DevEnv.Text

/-- The parts before and after the first `c`. -/
def cutChars (c : Char) : List Char → Option (List Char × List Char)
  | [] => none
  | x :: rest => if x = c then some ([], rest) else (cutChars c rest).map fun p => (x :: p.1, p.2)

def cut (c : Char) (s : String) : Option (String × String) :=
  (cutChars c s.toList).map fun p => (String.ofList p.1, String.ofList p.2)

/-- The pieces between the characters that pass the test: one more than there are such characters. -/
def piecesBy (p : Char → Bool) : List Char → List (List Char)
  | [] => [[]]
  | x :: rest => if p x then [] :: piecesBy p rest else (piecesBy p rest).modifyHead (x :: ·)

def pieces (c : Char) (s : String) : List String := (piecesBy (· = c) s.toList).map String.ofList

/-- Pieces joined with a separator between neighbours. -/
def joinChars (c : Char) : List (List Char) → List Char
  | [] => []
  | [piece] => piece
  | piece :: more => piece ++ c :: joinChars c more

def join (c : Char) (ps : List String) : String := String.ofList (joinChars c (ps.map String.toList))

theorem piecesBy_ne_nil (p : Char → Bool) (cs : List Char) : piecesBy p cs ≠ [] := by
  induction cs with
  | nil => simp [piecesBy]
  | cons x rest ih => unfold piecesBy; split <;> simp [ih]

theorem joinChars_piecesBy (c : Char) (cs : List Char) : joinChars c (piecesBy (· = c) cs) = cs := by
  induction cs with
  | nil => rfl
  | cons x rest ih =>
    obtain ⟨piece, more, h⟩ := List.exists_cons_of_ne_nil (piecesBy_ne_nil (· = c) rest)
    rw [h] at ih
    unfold piecesBy
    by_cases hx : x = c
    · simp [h, joinChars, ih, hx]
    · cases more <;> simp_all [joinChars]

/-- The text after the first occurrence of a mark. -/
def afterChars (mark : List Char) : List Char → Option (List Char)
  | [] => if mark.isEmpty then some [] else none
  | x :: rest =>
    if mark.isPrefixOf (x :: rest) then some ((x :: rest).drop mark.length) else afterChars mark rest

/-- Whether a text holds a mark somewhere. -/
def hasMark (mark s : String) : Bool := (afterChars mark.toList s.toList).isSome

end DevEnv.Text
