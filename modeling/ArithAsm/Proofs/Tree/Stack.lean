import ArithAsm.Tree.Shape
import ArithAsm.Tree.Walk

/-!
# The stack of a visit

Only the visit of a right operand is a call of its own, and needs a frame on the stack while it goes
on.  A visit on a stack of a few frames (`Visitor.onStack`) does something else in place of a call
for which there is no frame left.  The frames that suffice, whatever is done at the parts of the
tree, are as many as right operands lie within each other (`runsOn_iff`).
-/

namespace ArithAsm.Tree

section Stack

variable {m : Type → Type} {α : Type}

/-- **The visitor on a stack,** which is given by the number of its free frames.  Where none is left
for a right operand, `overflow` is done. -/
def Visitor.onStack (visitor : Visitor m α) (overflow : m α) : Visitor (ReaderT Nat m) α where
  enter op := fun _ => visitor.enter op
  leaf a := fun _ => visitor.leaf a
  join op x right := fun frames =>
    match frames with
    | 0 => overflow
    | frames + 1 => visitor.join op x (right frames)

variable [Monad m] [LawfulMonad m] (visitor : Visitor m α) (overflow : m α)

theorem visit_onStack_leaf (a : Leaf) (frames : Nat) :
    (Tree.leaf a).visit (visitor.onStack overflow) frames = visitor.leaf a := by
  rw [visit_leaf]
  rfl

theorem visit_onStack_node (op : Operator) (left right : Tree) (position : Option Int)
    (frames : Nat) :
    (Tree.node op left right position).visit (visitor.onStack overflow) frames = (do
      visitor.enter op
      let x ← left.visit (visitor.onStack overflow) frames
      match frames with
      | 0 => overflow
      | frames + 1 => visitor.join op x (right.visit (visitor.onStack overflow) frames)) := by
  rw [visit_node]
  rfl

theorem visit_onStack (t : Tree) {frames : Nat} (h : t.rightDepth ≤ frames) :
    t.visit (visitor.onStack overflow) frames = t.visit visitor := by
  induction t generalizing frames with
  | leaf a => rw [visit_onStack_leaf, visit_leaf]
  | node op left right position ihl ihr =>
    rw [rightDepth] at h
    obtain ⟨rest, rfl⟩ : ∃ rest, frames = rest + 1 := Nat.exists_eq_add_of_le' (by omega)
    have hleft : left.rightDepth ≤ rest + 1 := by omega
    have hright : right.rightDepth ≤ rest := by omega
    rw [visit_onStack_node, visit_node, ihl hleft]
    dsimp only
    rw [ihr hright]

end Stack

/-- **Every visit of the tree runs on a stack of so many frames,** as if there were no end of
them. -/
def RunsOn (t : Tree) (frames : Nat) : Prop :=
  ∀ (m : Type → Type) [Monad m] [LawfulMonad m] (α : Type) (visitor : Visitor m α) (overflow : m α),
    t.visit (visitor.onStack overflow) frames = t.visit visitor

/-- The visitor that finds nothing wrong with a tree. -/
def approver : Visitor Id Bool where
  enter _ := ⟨⟩
  leaf _ := true
  join _ x right := x && right

theorem visit_approver (t : Tree) : t.visit approver = true := by
  induction t with
  | leaf a => rfl
  | node op left right position ihl ihr =>
    rw [visit_node, ihl, ihr]
    rfl

theorem visit_approver_onStack (t : Tree) (frames : Nat) :
    t.visit (approver.onStack false) frames = decide (t.rightDepth ≤ frames) := by
  induction t generalizing frames with
  | leaf a => rfl
  | node op left right position ihl ihr =>
    rw [visit_onStack_node, ihl, rightDepth]
    cases frames with
    | zero =>
      have hmore : ¬ max left.rightDepth (1 + right.rightDepth) ≤ 0 := by omega
      rw [decide_eq_false hmore]
      rfl
    | succ rest =>
      have hboth : max left.rightDepth (1 + right.rightDepth) ≤ rest + 1
          ↔ left.rightDepth ≤ rest + 1 ∧ right.rightDepth ≤ rest := by omega
      dsimp only
      rw [ihr, decide_eq_decide.mpr hboth, Bool.decide_and]
      rfl

/-- **A visit needs as many frames as right operands lie within each other,** and no more. -/
theorem runsOn_iff {t : Tree} {frames : Nat} : t.RunsOn frames ↔ t.rightDepth ≤ frames := by
  constructor
  · intro h
    have happroves := h Id Bool approver false
    rw [visit_approver_onStack, visit_approver] at happroves
    exact of_decide_eq_true happroves
  · exact fun h m _ _ α visitor overflow => t.visit_onStack visitor overflow h

end ArithAsm.Tree
