import ArithAsm.Proofs.Tree.Value
import ArithAsm.Proofs.Word.Residue

/-!
# Computing modulo `2^64`

Every step of a computation wraps.  Without divisions it could as well wrap once, in the end: the
value of the tree is the word of its exact value (`value_eq_wrap_exact`).
-/

namespace ArithAsm.Tree

theorem value_of_divisionFree {p : Int → Prop} {t : Tree} (ht : t.AllNumbers p)
    (hfree : t.DivisionFree) : t.value = .ok (wrap t.exact) := by
  induction t with
  | leaf a =>
    cases a with
    | number value position => rfl
    | placeholder kind => exact ht.elim
    | foreign text => exact ht.elim
  | node op left right position ihl ihr =>
    obtain ⟨hop, hleft, hright⟩ := hfree
    refine value_node_eq_ok_iff.mpr ⟨_, _, ihl ht.1 hleft, ihr ht.2 hright, ?_⟩
    rw [Operator.apply_of_ne_div hop, wrap_exact_wrap hop]
    rfl

/-- **A tree without divisions is computed modulo `2^64`:** its value is the word of its exact
value, which is the only word that agrees with it modulo `2^64` and is read off its lowest 64 bits.
With or without divisions, a value is a word. -/
theorem value_eq_wrap_exact (t : Tree) :
    (t.AllNumbers (fun _ => True) → t.DivisionFree →
      t.value = .ok (wrap t.exact) ∧ wrap t.exact = ofLowBits t.exact ∧
      ∀ w, w = wrap t.exact ↔
        IsWord w ∧ w % 0x10000000000000000 = t.exact % 0x10000000000000000) ∧
    ∀ v, t.value = .ok v → IsWord v :=
  ⟨fun ht hfree =>
      ⟨value_of_divisionFree ht hfree, wrap_eq_ofLowBits t.exact, fun _ => eq_wrap_iff⟩,
    fun _ => isWord_of_value⟩

/-- The square of `2^63 + 1` less `2^200`, which wraps in every step, and a quotient that wraps. -/
theorem value_eq_wrap_exact_square :
    let square := Tree.node .sub
      (.node .mul (number 0x8000000000000001 none) (number 0x8000000000000001 none) none)
      (number (2 ^ 200) none) none
    let quotient := Tree.node .div (number (-0x8000000000000000) none) (number (-1) none) none
    square.value = .ok 1 ∧ IsWord 1 ∧ 1 % 0x10000000000000000 = square.exact % 0x10000000000000000 ∧
      quotient.value = .ok (-0x8000000000000000) ∧ IsWord (-0x8000000000000000) := by
  intro square quotient
  have hfree : square.DivisionFree :=
    ⟨by decide, ⟨by decide, trivial, trivial⟩, trivial⟩
  obtain ⟨hvalue, -, hword⟩ := (value_eq_wrap_exact square).1 (by decide) hfree
  have hexact : wrap square.exact = 1 := by decide
  rw [hexact] at hvalue hword
  obtain ⟨hone, hagree⟩ := (hword 1).mp rfl
  have hquotient : quotient.value = .ok (-0x8000000000000000) := by rfl
  exact ⟨hvalue, hone, hagree, hquotient, (value_eq_wrap_exact quotient).2 _ hquotient⟩

end ArithAsm.Tree
