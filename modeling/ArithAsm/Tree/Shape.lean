import ArithAsm.Tree

/-!
# The shape of a tree

Which leaves a tree has, how deep a walk along its left edge has to recurse, and its exact value as
an integer.
-/

namespace ArithAsm.Tree

/-- Every leaf is a number, with a value for which `p` holds. -/
def AllNumbers (p : Int → Prop) : Tree → Prop
  | .leaf (.number value _) => p value
  | .leaf _ => False
  | .node _ left right _ => left.AllNumbers p ∧ right.AllNumbers p

instance decidableAllNumbers (p : Int → Prop) [DecidablePred p] :
    (t : Tree) → Decidable (t.AllNumbers p)
  | .leaf (.number value _) => inferInstanceAs (Decidable (p value))
  | .leaf (.placeholder _) => inferInstanceAs (Decidable False)
  | .leaf (.foreign _) => inferInstanceAs (Decidable False)
  | .node _ left right _ =>
    have := decidableAllNumbers p left
    have := decidableAllNumbers p right
    inferInstanceAs (Decidable (_ ∧ _))

/-- No operation of the tree is a division. -/
def DivisionFree : Tree → Prop
  | .leaf _ => True
  | .node op left right _ => op ≠ .div ∧ left.DivisionFree ∧ right.DivisionFree

/-- How many right operands lie within each other.  A left operand costs no depth. -/
def rightDepth : Tree → Nat
  | .leaf _ => 0
  | .node _ left right _ => max left.rightDepth (1 + right.rightDepth)

/-- The value of the tree in the integers, where nothing wraps. -/
def exact : Tree → Int
  | .leaf (.number value _) => value
  | .leaf _ => 0
  | .node op left right _ => op.exact left.exact right.exact

theorem AllNumbers.mono {p q : Int → Prop} (hpq : ∀ v, p v → q v) {t : Tree}
    (h : t.AllNumbers p) : t.AllNumbers q := by
  induction t with
  | leaf a =>
    cases a with
    | number value _ => exact hpq value h
    | placeholder _ => exact h
    | foreign _ => exact h
  | node _ _ _ _ ihl ihr => exact ⟨ihl h.1, ihr h.2⟩

theorem exists_number_of_allNumbers {p : Int → Prop} {a : Leaf} (h : (Tree.leaf a).AllNumbers p) :
    ∃ value position, a = .number value position ∧ p value := by
  cases a with
  | number value position => exact ⟨value, position, rfl, h⟩
  | placeholder _ => exact h.elim
  | foreign _ => exact h.elim

end ArithAsm.Tree
