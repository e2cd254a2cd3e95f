import ArithAsm.Tree.Walk

/-!
# The value of a tree

The value of an expression is a machine word: literals are wrapped, and every operation works on
words.  The first leaf or division that has no value, in the order of computation, is the error of
the whole.
-/

namespace ArithAsm

/-- The value of a leaf. -/
def Leaf.value : Leaf → Except EvalError Int
  | .number v _ => .ok (wrap v)
  | .placeholder _ => .error .noValue
  | .foreign _ => .error .foreign

namespace Tree

/-- The visitor that computes values. -/
def valuer : Visitor (Except EvalError) Int where
  enter _ := pure ⟨⟩
  leaf := Leaf.value
  join op x right := do
    let y ← right
    op.apply x y

/-- **The value of a tree,** or the first error of its computation. -/
def value (t : Tree) : Except EvalError Int :=
  t.visit valuer

@[simp] theorem value_leaf (a : Leaf) : (Tree.leaf a).value = a.value :=
  visit_leaf valuer a

/-- The left operand is computed first, then the right one, then the operation. -/
theorem value_node (op : Operator) (left right : Tree) (position : Option Int) :
    (Tree.node op left right position).value = (do
      let x ← left.value
      let y ← right.value
      op.apply x y) := by
  simp [value, valuer]

end Tree

end ArithAsm
