import ArithAsm.Proofs.Tree.Value
import ArithAsm.Proofs.Word.Quotient
import ArithAsm.Proofs.X64.Simulation

/-!
# The outcome of a tree and its value

A machine that wraps quotients pushes the value of a tree.  A processor does so unless a division
in the tree overflows (`Tree.Overflows`): the value has the wrapped quotient there, and the
processor a fault (`outcome?_eq_some_iff`).
-/

namespace ArithAsm

/-- **A division in the tree overflows:** it divides the least word by `-1`. -/
def Tree.Overflows : Tree → Prop
  | .leaf _ => False
  | .node op left right _ =>
    left.Overflows ∨ right.Overflows ∨
      op = .div ∧ ∃ x y, left.value = .ok x ∧ right.value = .ok y ∧ QuotientOverflows x y

namespace X64

variable {w : Bool} {v : Int}

theorem operate?_eq_some_iff {op : Operator} {x y : Int} (hx : IsWord x) :
    operate? w op x y = some v ↔
      op.apply x y = .ok v ∧ (w = true ∨ ¬ (op = .div ∧ QuotientOverflows x y)) := by
  have hword : IsWord (x.tdiv y) ↔ ¬ QuotientOverflows x y := isWord_tdiv_iff hx
  unfold operate? Operator.apply
  by_cases hdiv : op = .div
  · by_cases hzero : y = 0
    · simp [hdiv, hzero]
    · by_cases hover : QuotientOverflows x y <;> cases w <;> simp [hdiv, hzero, hword, hover]
  · simp [hdiv]

/-- **The outcome of a tree is its value,** on a processor unless a division overflows. -/
theorem outcome?_eq_some_iff {t : Tree} :
    outcome? w t = some v ↔ t.value = .ok v ∧ (w = true ∨ ¬ t.Overflows) := by
  induction t generalizing v with
  | leaf a =>
    cases a with
    | number value position =>
      simp [outcome?, Leaf.value, Tree.Overflows]
    | placeholder kind => simp [outcome?, Leaf.value]
    | foreign text => simp [outcome?, Leaf.value]
  | node op left right position ihl ihr =>
    rw [Tree.value_node_eq_ok_iff]
    constructor
    · intro h
      obtain ⟨x, hx, h⟩ := Option.bind_eq_some_iff.mp h
      obtain ⟨y, hy, h⟩ := Option.bind_eq_some_iff.mp h
      obtain ⟨hx, hleft⟩ := ihl.mp hx
      obtain ⟨hy, hright⟩ := ihr.mp hy
      obtain ⟨h, hop⟩ := (operate?_eq_some_iff (Tree.isWord_of_value hx)).mp h
      refine ⟨⟨x, y, hx, hy, h⟩, ?_⟩
      by_cases hw : w = true
      · exact Or.inl hw
      refine Or.inr ?_
      rintro (hover | hover | ⟨hdiv, x', y', hx', hy', hover⟩)
      · exact hleft.resolve_left hw hover
      · exact hright.resolve_left hw hover
      · cases hx.symm.trans hx'
        cases hy.symm.trans hy'
        exact hop.resolve_left hw ⟨hdiv, hover⟩
    · rintro ⟨⟨x, y, hx, hy, h⟩, hover⟩
      refine Option.bind_eq_some_iff.mpr ⟨x, ihl.mpr ⟨hx, ?_⟩, ?_⟩
      · exact hover.imp_right fun hnot hleft => hnot (Or.inl hleft)
      refine Option.bind_eq_some_iff.mpr ⟨y, ihr.mpr ⟨hy, ?_⟩, ?_⟩
      · exact hover.imp_right fun hnot hright => hnot (Or.inr (Or.inl hright))
      refine (operate?_eq_some_iff (Tree.isWord_of_value hx)).mpr ⟨h, ?_⟩
      exact hover.imp_right fun hnot hop =>
        hnot (Or.inr (Or.inr ⟨hop.1, x, y, hx, hy, hop.2⟩))

end X64

end ArithAsm
