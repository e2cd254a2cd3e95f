/-!
# Sets of characters given by ranges

A class of characters is written down as a table of ranges of code points, both ends included.
-/

namespace ArithAsm.Text

/-- A range of code points, with both ends. -/
abbrev CharRange := Nat × Nat

/-- Membership of a character in one of the ranges of a table. -/
def inRanges (table : List CharRange) (c : Char) : Bool :=
  table.any fun range => range.1 ≤ c.toNat && c.toNat ≤ range.2

end ArithAsm.Text
