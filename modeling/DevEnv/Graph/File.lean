import DevEnv.File
import DevEnv.Graph

/-! Build graphs kept in files. A graph that cannot be read is told apart from one that makes no sense. -/
namespace DevEnv

/-- The build graph of a file as it was found. -/
def Graph.ofFile (found : File.Contents) : Except Error Graph :=
  match File.text found with
  | .ok text => read text
  | .error (.missing reason) => .error (.unreadable reason)
  | .error (.refused reason) => .error (.unreadable reason)

end DevEnv
