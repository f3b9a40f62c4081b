import Unlambda.Text.CodeRanges

/-!
# Blank characters

The characters with the Unicode property White_Space. A line that holds nothing else counts
as empty. This set is wider than the white space of a program, which is the space, the tab
and the newline.

## Main definitions

* `Unlambda.Text.isBlank`: whether a character is blank
* `Unlambda.Text.isBlankLine`: whether all characters of a text are
-/

namespace Unlambda.Text

/-- The code points with the property White_Space. -/
def blankRanges : CodeRanges :=
  [(0x9, 0xd), (0x20, 0x20), (0x85, 0x85), (0xa0, 0xa0), (0x1680, 0x1680), (0x2000, 0x200a),
   (0x2028, 0x2029), (0x202f, 0x202f), (0x205f, 0x205f), (0x3000, 0x3000)]

/-- Whether a character has the property White_Space. -/
def isBlank (x : Char) : Bool := blankRanges.contains x

/-- Whether nothing is left of a text once blanks are trimmed from its ends, which is to say
whether all of it is blank. -/
def isBlankLine (line : List Char) : Bool := line.all isBlank

end Unlambda.Text
