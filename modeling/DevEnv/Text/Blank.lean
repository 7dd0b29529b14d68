/-! The characters that count as blank space, and trimming them off both ends of a text.
Trimming removes nothing else. -/
namespace DevEnv.Text

/-- The characters with the property White_Space. -/
def isBlank (c : Char) : Bool :=
  let n := c.toNat
  (9 ≤ n && n ≤ 13) || n = 0x20 || n = 0x85 || n = 0xA0 || n = 0x1680 || (0x2000 ≤ n && n ≤ 0x200A) ||
    n = 0x2028 || n = 0x2029 || n = 0x202F || n = 0x205F || n = 0x3000

/-- Drops the blanks in front. -/
def trimFront (cs : List Char) : List Char := cs.dropWhile isBlank

/-- Drops the blanks at the end. -/
def trimBack (cs : List Char) : List Char := (cs.reverse.dropWhile isBlank).reverse

def trimChars (cs : List Char) : List Char := trimBack (trimFront cs)

def trim (s : String) : String := String.ofList (trimChars s.toList)

/-- A text with nothing but blanks. -/
def isAllBlank (s : String) : Bool := s.toList.all isBlank

/-- The small letter of an ASCII capital; any other character as it is. -/
def lower (s : String) : String := String.ofList (s.toList.map Char.toLower)

end DevEnv.Text
