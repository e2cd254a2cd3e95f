import ArithAsm.Tree

/-!
# Walking a tree along its left edge

A tree is visited in the order in which its expression is computed: the left operand, the right
operand, the operation.  The left edge is walked by a loop that keeps the operations still to be
finished in a list, so that a long chain needs no deep recursion; only a right operand is walked by
a call of its own.  The main statement is `visit_node`: the walk is the plain recursion on the tree.
-/

namespace ArithAsm.Tree

variable {m : Type → Type} {α : Type}

/-- What is done at each part of a tree: on the way down to the left operand of an operation, at a
leaf, and at an operation once its left operand is done.  The last is given the visit of the right
operand, to be run where it belongs. -/
structure Visitor (m : Type → Type) (α : Type) where
  enter : Operator → m PUnit
  leaf : Leaf → m α
  join : Operator → α → m α → m α

/-- Visits a tree and then finishes the pending operations, the innermost first. -/
@[specialize]
def walk [Monad m] (visitor : Visitor m α) : Tree → List (α → m α) → m α
  | .leaf a, pending => do
    let x ← visitor.leaf a
    pending.foldlM (fun x finish => finish x) x
  | .node op left right _, pending => do
    visitor.enter op
    left.walk visitor ((fun x => visitor.join op x (right.walk visitor [])) :: pending)

/-- **The visit of a tree.** -/
@[inline]
def visit [Monad m] (visitor : Visitor m α) (t : Tree) : m α :=
  t.walk visitor []

variable [Monad m] [LawfulMonad m] (visitor : Visitor m α)

theorem walk_eq_visit (t : Tree) (pending : List (α → m α)) :
    t.walk visitor pending
      = t.visit visitor >>= fun x => pending.foldlM (fun x finish => finish x) x := by
  induction t generalizing pending with
  | leaf a => simp [visit, walk]
  | node op left right position ihl _ =>
    simp only [visit] at ihl ⊢
    rw [walk, walk, ihl, ihl [_]]
    simp [List.foldlM_cons]

@[simp] theorem visit_leaf (a : Leaf) : (Tree.leaf a).visit visitor = visitor.leaf a := by
  simp [visit, walk]

@[simp] theorem visit_node (op : Operator) (left right : Tree) (position : Option Int) :
    (Tree.node op left right position).visit visitor = (do
      visitor.enter op
      let x ← left.visit visitor
      visitor.join op x (right.visit visitor)) := by
  conv => lhs; rw [visit, walk, walk_eq_visit]
  simp [visit]

end ArithAsm.Tree
