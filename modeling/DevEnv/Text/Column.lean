/-! Left-aligned columns of a table, measured in characters. -/
namespace DevEnv.Text

/-- A cell filled up with spaces to its width; a longer cell is kept whole. -/
def pad (width : Nat) (s : String) : String :=
  String.ofList (s.toList ++ List.replicate (width - s.toList.length) ' ')

/-- A row of cells, all but the last one padded, with a space between neighbours. -/
def row : List Nat → List String → String
  | w :: ws, c :: cs => pad w c ++ " " ++ row ws cs
  | [], cs => String.intercalate " " cs
  | _, [] => ""

end DevEnv.Text
