import DevEnv.Text.Split

/-! Slash-separated paths, as far as their last part and their joining go.
Empty segments and single dots do not count. -/
namespace DevEnv.Text.Path

/-- The segments that count. -/
def segments (path : List Char) : List (List Char) :=
  (piecesBy (· = '/') path).filter fun s => s ≠ [] && s ≠ ['.']

/-- The last part of a path, unless it goes to the parent or there is none. -/
def lastChars (path : List Char) : Option (List Char) :=
  (segments path).getLast?.filter (· ≠ ['.', '.'])

def last (path : String) : Option String := (lastChars path.toList).map String.ofList

/-- A path below a directory; an absolute path stands for itself. -/
def under (dir path : String) : String :=
  if path.toList.head? = some '/' then path
  else if dir = "" || dir.toList.getLast? = some '/' then dir ++ path
  else dir ++ "/" ++ path

end DevEnv.Text.Path
