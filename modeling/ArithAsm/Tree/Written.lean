import ArithAsm.Token.Scan
import ArithAsm.Tree

/-!
# Trees as expressions

The expression that a tree is written as, in words that are the texts of tokens.  Parentheses stand
only where the tree would be read differently without them: around an operand that binds less than
its operation, and on the right also around one that binds as much.
-/

namespace ArithAsm

/-- The word of a leaf in an expression: the numeral of a number.  What is no number has none. -/
def Leaf.word : Leaf → String
  | .number v _ => toString v
  | .placeholder _ => ""
  | .foreign _ => ""

/-- How strongly an operator binds its operands. -/
def Operator.strength : Operator → Nat
  | add => 1
  | sub => 1
  | mul => 2
  | div => 2

namespace Tree

/-- How strongly a tree holds together; a number cannot be torn apart. -/
def strength : Tree → Nat
  | .leaf _ => 3
  | .node op _ _ _ => op.strength

/-- Words, in parentheses if need be. -/
def enclose (needed : Bool) (words : List String) : List String :=
  if needed then "(" :: words ++ [")"] else words

/-- **The words of the expression** that the tree is written as. -/
def written : Tree → List String
  | .leaf a => [a.word]
  | .node op left right _ =>
    enclose (left.strength < op.strength) left.written
      ++ String.singleton op.symbol
      :: enclose (right.strength ≤ op.strength) right.written

end Tree

/-- A text made of the words in their order, with layout before, between and behind them. -/
inductive Spaced : List String → List Char → Prop
  | nil {gap : List Char} (hg : ∀ c ∈ gap, c ∈ Token.layout) : Spaced [] gap
  | cons {word : String} {words : List String} {gap text : List Char}
      (hg : ∀ c ∈ gap, c ∈ Token.layout) (h : Spaced words text) :
      Spaced (word :: words) (gap ++ (word.toList ++ text))

end ArithAsm
