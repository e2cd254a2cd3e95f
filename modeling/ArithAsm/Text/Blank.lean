import ArithAsm.Text.CharRange

/-!
# Blank characters

The characters that show as white space: the separators of Unicode and the controls that move the
cursor.
-/

namespace ArithAsm.Text

/-- The code points of the blank characters. -/
def blankRanges : List CharRange :=
  [(0x9, 0xD), (0x1C, 0x20), (0x85, 0x85), (0xA0, 0xA0), (0x1680, 0x1680), (0x2000, 0x200A),
    (0x2028, 0x2029), (0x202F, 0x202F), (0x205F, 0x205F), (0x3000, 0x3000)]

/-- A character that shows as white space. -/
def isBlank (c : Char) : Bool :=
  inRanges blankRanges c

end ArithAsm.Text
