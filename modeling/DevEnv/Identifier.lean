import DevEnv.Json.Decode

/-! Identifiers that a container runtime gives to containers and images. -/
namespace DevEnv

/-- An identifier, possibly with the name of its hash in front. -/
structure Identifier where
  text : String
  deriving DecidableEq, Repr, Inhabited

namespace Identifier

def hashMark : List Char := "sha256:".toList

/-- The first twelve characters after the name of the hash, the form used in listings. -/
def short (i : Identifier) : String :=
  let cs := i.text.toList
  String.ofList ((if hashMark.isPrefixOf cs then cs.drop hashMark.length else cs).take 12)

def toJson (i : Identifier) : Json := .ofString i.text

def ofJson? (j : Json) : Option Identifier := j.asString?.map Identifier.mk

end Identifier
end DevEnv
