import ArithAsm.Tree.Walk

/-!
# The loop over the left edge

A visit is a loop over the left edge of a tree: it goes down the edge, outermost operation first,
visits the leaf at its end, and comes back up with one right operand after the other
(`visit_eq_loop`).
-/

namespace ArithAsm.Tree

/-! ### The left edge of an operation -/

theorem unwind_eq_append (t : Tree) (branches : List Branch) :
    t.unwind branches = ((t.unwind []).1 ++ branches, (t.unwind []).2) := by
  induction t generalizing branches with
  | leaf a => rfl
  | node op left right position ihl _ =>
    rw [unwind, unwind, ihl, ihl [_]]
    simp

@[simp] theorem spine_leaf (a : Leaf) : (Tree.leaf a).spine = ([], a) :=
  rfl

@[simp] theorem spine_node (op : Operator) (left right : Tree) (position : Option Int) :
    (Tree.node op left right position).spine
      = (⟨op, right, position⟩ :: left.spine.1, left.spine.2) := by
  have hunwind : (Tree.node op left right position).unwind []
      = ((left.unwind []).1 ++ [⟨op, right, position⟩], (left.unwind []).2) := by
    rw [unwind, unwind_eq_append]
  simp [spine, hunwind]

/-! ### The loop -/

section Loop

variable {m : Type → Type} {α : Type} [Monad m]

/-- **The loop over the left edge.**  The operations are entered from the outermost one to the
innermost one; then, behind the leaf, they are joined from the innermost one to the outermost one,
each with the visit of its right operand. -/
def loop (visitor : Visitor m α) (t : Tree) : m α := do
  t.spine.1.forM fun branch => visitor.enter branch.op
  let x ← visitor.leaf t.spine.2
  t.spine.1.reverse.foldlM
    (fun x branch => visitor.join branch.op x (branch.right.visit visitor)) x

/-- **A visit is a loop over the left edge.** -/
theorem visit_eq_loop [LawfulMonad m] (visitor : Visitor m α) (t : Tree) :
    t.visit visitor = t.loop visitor := by
  induction t with
  | leaf a => simp [loop]
  | node op left right position ihl _ =>
    -- the operation is entered before the others of its edge and joined after them
    rw [visit_node, ihl]
    simp [loop, List.foldlM_append]

end Loop

end ArithAsm.Tree
