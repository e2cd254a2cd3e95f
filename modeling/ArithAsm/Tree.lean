import ArithAsm.Operator

/-!
# Expression trees

An expression is a tree of binary operations over numbers; a sign has no node of its own.  A tree
may also carry a leaf that is no number, so that each use of a tree has to say what it does there.
Every number and every operation keeps the place in the source it came from, if there is one, and
two trees are the same when they agree up to these places (`Same`).

A long sum leans to the left as far as the sum is long, so a tree is taken apart along its left
edge: `spine` lists the operations of that edge, outermost first, with the leaf they end in, and
`ofSpine` puts the tree together again (`ofSpine_spine`).
-/

namespace ArithAsm

/-- The leaves that are no expression yet: an expression left open, or a node left open. -/
inductive Placeholder where
  | expression
  | tree
  deriving DecidableEq, Repr

/-- What stands at the end of a branch. -/
inductive Leaf where
  | number (value : Int) (position : Option Int)
  | placeholder (kind : Placeholder)
  /-- A text in place of a node. -/
  | foreign (text : String)
  deriving DecidableEq, Repr

/-- An expression tree. -/
inductive Tree where
  | leaf (leaf : Leaf)
  | node (op : Operator) (left right : Tree) (position : Option Int)
  deriving DecidableEq, Repr

namespace Tree

/-- A number as a tree. -/
def number (value : Int) (position : Option Int) : Tree :=
  .leaf (.number value position)

/-! ### Trees without their places -/

/-- The tree with every place in the source left out. -/
def unlocated : Tree → Tree
  | .leaf (.number value _) => number value none
  | .leaf a => .leaf a
  | .node op left right _ => .node op left.unlocated right.unlocated none

/-- The trees agree up to the places of their nodes in the source. -/
def Same (a b : Tree) : Prop :=
  a.unlocated = b.unlocated

instance : DecidableRel Same := fun a b => inferInstanceAs (Decidable (a.unlocated = b.unlocated))

theorem same_number {v w : Int} (h : v = w) (p q : Option Int) :
    (number v p).Same (number w q) := by
  subst h
  rfl

theorem Same.node {l l' r r' : Tree} (hl : l.Same l') (hr : r.Same r') (op : Operator)
    (p q : Option Int) : (Tree.node op l r p).Same (.node op l' r' q) := by
  unfold Same at *
  rw [unlocated, unlocated, hl, hr]

/-! ### The left edge -/

/-- An operation of the left edge without its left operand. -/
structure Branch where
  op : Operator
  right : Tree
  position : Option Int
  deriving DecidableEq, Repr

/-- The tree that has `left` as the left operand of the branch. -/
def Branch.attach (left : Tree) (b : Branch) : Tree :=
  .node b.op left b.right b.position

/-- Goes down the left edge and puts its operations before `branches`, the innermost one first. -/
def unwind : Tree → List Branch → List Branch × Leaf
  | .leaf a, branches => (branches, a)
  | .node op left right position, branches => left.unwind (⟨op, right, position⟩ :: branches)

/-- **The left edge of a tree:** its operations, outermost first, and the leaf at its end. -/
def spine (t : Tree) : List Branch × Leaf :=
  let (branches, a) := t.unwind []
  (branches.reverse, a)

/-- The tree with the given left edge. -/
def ofSpine (branches : List Branch) (a : Leaf) : Tree :=
  branches.foldr (fun b left => b.attach left) (.leaf a)

theorem foldl_attach_unwind (t : Tree) (branches : List Branch) :
    (t.unwind branches).1.foldl Branch.attach (.leaf (t.unwind branches).2)
      = branches.foldl Branch.attach t := by
  induction t generalizing branches with
  | leaf a => rfl
  | node op left right position ihl _ =>
    rw [unwind, ihl]
    rfl

@[simp] theorem ofSpine_spine (t : Tree) : ofSpine t.spine.1 t.spine.2 = t := by
  simpa [ofSpine, spine] using foldl_attach_unwind t []

end Tree

end ArithAsm
