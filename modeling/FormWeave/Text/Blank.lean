/-!
# Blank characters

The characters with the Unicode property `White_Space`, and trimming a text of them.
-/

namespace FormWeave.Text

/-- The characters with the property `White_Space`. -/
def isBlank (c : Char) : Bool :=
  let n := c.toNat
  (9 ≤ n && n ≤ 13) || n == 0x20 || n == 0x85 || n == 0xa0 || n == 0x1680 ||
    (0x2000 ≤ n && n ≤ 0x200a) || n == 0x2028 || n == 0x2029 || n == 0x202f || n == 0x205f ||
    n == 0x3000

def dropBlanksEnd (cs : List Char) : List Char :=
  (cs.reverse.dropWhile isBlank).reverse

def trimList (cs : List Char) : List Char :=
  dropBlanksEnd (cs.dropWhile isBlank)

def trimEnd (text : String) : String := String.ofList (dropBlanksEnd text.toList)

def trim (text : String) : String := String.ofList (trimList text.toList)

def allBlank (text : String) : Bool := text.toList.all isBlank

end FormWeave.Text
