import ArithAsm.Tree.Shape
import ArithAsm.Tree.Value

/-!
# When a tree has a value

An operation has a value when both operands have one and the operator takes them
(`value_node_eq_ok_iff`).  A value is a word (`isWord_of_value`), and a tree of numbers has a value
unless it divides by zero (`value_of_allNumbers`).
-/

namespace ArithAsm.Tree

variable {op : Operator} {left right : Tree} {position : Option Int} {v : Int}

theorem value_node_eq_ok_iff : (Tree.node op left right position).value = .ok v ↔
    ∃ x y, left.value = .ok x ∧ right.value = .ok y ∧ op.apply x y = .ok v := by
  rw [value_node]
  constructor
  · intro h
    rcases hx : left.value with _ | x <;> rw [hx] at h
    · cases h
    rcases hy : right.value with _ | y <;> rw [hy] at h
    · cases h
    exact ⟨x, y, rfl, rfl, h⟩
  · rintro ⟨x, y, hx, hy, h⟩
    rw [hx, hy]
    exact h

/-- **A value is a word.** -/
theorem isWord_of_value {t : Tree} (h : t.value = .ok v) : IsWord v := by
  cases t with
  | leaf a =>
    cases a with
    | number value position =>
      rw [← Except.ok.inj h]
      exact wrap_isWord value
    | placeholder kind => cases h
    | foreign text => cases h
  | node op left right position =>
    obtain ⟨x, y, -, -, h⟩ := value_node_eq_ok_iff.mp h
    exact Operator.apply_isWord h

/-- **A tree of numbers has a value,** unless one of its divisions is by zero. -/
theorem value_of_allNumbers {p : Int → Prop} {t : Tree} (ht : t.AllNumbers p) :
    (∃ v, t.value = .ok v) ∨ t.value = .error .divisionByZero := by
  induction t with
  | leaf a =>
    cases a with
    | number value position => exact Or.inl ⟨wrap value, rfl⟩
    | placeholder kind => exact ht.elim
    | foreign text => exact ht.elim
  | node op left right position ihl ihr =>
    rw [value_node]
    rcases (ihl ht.1).symm with hx | ⟨x, hx⟩
    · exact Or.inr (by rw [hx]; rfl)
    rcases (ihr ht.2).symm with hy | ⟨y, hy⟩
    · exact Or.inr (by rw [hx, hy]; rfl)
    rw [hx, hy]
    rcases h : op.apply x y with e | v
    · obtain ⟨-, rfl⟩ := Operator.apply_eq_error_iff.mp h
      exact Or.inr h
    · exact Or.inl ⟨v, h⟩

end ArithAsm.Tree
