import Calculator.Text.Ranges

/-!
# Blanks

* `isBlank`: white space of any script, with the information separators
  U+001C to U+001F.
* `trim`: a text without the blanks at its ends.
-/

namespace Calculator.Text

/-- The code points of white space. -/
def blankRanges : Ranges :=
  [(0x9, 0xd), (0x1c, 0x20), (0x85, 0x85), (0xa0, 0xa0), (0x1680, 0x1680),
    (0x2000, 0x200a), (0x2028, 0x2029), (0x202f, 0x202f), (0x205f, 0x205f), (0x3000, 0x3000)]

/-- The character is white space. -/
def isBlank (c : Char) : Bool := blankRanges.covers c.toNat

/-- The text without the characters of a class at its two ends. -/
def trimWhere (p : Char → Bool) (cs : List Char) : List Char :=
  ((cs.dropWhile p).reverse.dropWhile p).reverse

/-- The text without the blanks at its two ends. -/
def trim (s : String) : String := String.ofList (trimWhere isBlank s.toList)

end Calculator.Text
