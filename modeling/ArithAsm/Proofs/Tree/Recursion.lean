import ArithAsm.Assembly.Registry
import ArithAsm.Proofs.Assembly.Steps
import ArithAsm.Proofs.Tree.Spine
import ArithAsm.Tree.Print
import ArithAsm.Tree.Value

/-!
# The loops over the left edge are plain recursions

The value, the text and the code of a tree are computed by loops over its left edge.  Each of them
gives what the plain recursion on the tree gives (`loop_eq_recursion`): the same value, the same
text or the same first error, and the same lines on top of those that an emitter holds, with the
same end.  The recursions are written out here without the visitor that the loops share.  A tree of
numbers may still have no program, and no text: one of them can have too many digits to be written
(`lower_of_long_number`).
-/

namespace ArithAsm

namespace Tree

/-- **The value of a tree by recursion:** that of the left operand, then that of the right one, then
the operation.  The first of them to fail is the error of the whole. -/
def recursiveValue : Tree → Except EvalError Int
  | .leaf a => a.value
  | .node op left right _ =>
    match left.recursiveValue with
    | .error e => .error e
    | .ok x =>
      match right.recursiveValue with
      | .error e => .error e
      | .ok y => op.apply x y

/-- **The text of a tree by recursion:** its operator, the text of the left operand and that of the
right one, in parentheses.  The first operand without a text is the error of the whole. -/
def recursivePrint : Tree → Except PrintError String
  | .leaf a => a.text
  | .node op left right _ =>
    match left.recursivePrint with
    | .error e => .error e
    | .ok l =>
      match right.recursivePrint with
      | .error e => .error e
      | .ok r => .ok ("(" ++ String.singleton op.symbol ++ " " ++ l ++ " " ++ r ++ ")")

theorem value_eq_recursion (t : Tree) : t.value = t.recursiveValue := by
  induction t with
  | leaf a => rw [value_leaf, recursiveValue]
  | node op left right position ihl ihr =>
    rw [value_node, ihl, ihr, recursiveValue]
    cases left.recursiveValue with
    | error e => rfl
    | ok x => cases right.recursiveValue <;> rfl

theorem print_eq_recursion (t : Tree) : t.print = t.recursivePrint := by
  induction t with
  | leaf a => rw [print_leaf, recursivePrint]
  | node op left right position ihl ihr =>
    rw [print_node, ihl, ihr, recursivePrint]
    cases left.recursivePrint with
    | error e => rfl
    | ok l => cases right.recursivePrint <;> rfl

end Tree

namespace Emission

variable {α β : Type}

/-- What an emitter that holds some lines holds after the emission, and how the emission ended. -/
def onto (e : Emission α) (held : List Line) : List Line × Except LowerError α :=
  (held ++ e.lines, e.result)

/-- The second emission goes on with what the first one leaves, unless this has failed. -/
theorem onto_bind (e : Emission α) (next : α → Emission β) (held : List Line) :
    (e >>= next).onto held =
      match e.onto held with
      | (held, .error f) => (held, .error f)
      | (held, .ok x) => (next x).onto held := by
  rcases e with ⟨lines, f | x⟩
  · rfl
  · rw [bind_of_ok]
    simp [onto]

end Emission

namespace Backend

open Emission

/-- **The code of a tree by recursion,** on an emitter that holds some lines: that of the left
operand, that of the right one, the pops of the two registers, the operation and the push of its
result.  A leaf without code ends it. -/
def recursiveCode (b : Backend) : Tree → List Line → List Line × Except LowerError PUnit
  | .leaf a, held => (b.leaf a).onto held
  | .node op left right _, held =>
    match b.recursiveCode left held with
    | (held, .error e) => (held, .error e)
    | (held, .ok _) =>
      match b.recursiveCode right held with
      | (held, .error e) => (held, .error e)
      | (held, .ok _) =>
        (held ++ [b.pop b.secondary] ++ [b.pop b.primary] ++ b.operate op ++ [b.push b.primary],
          .ok ⟨⟩)

theorem onto_expression (b : Backend) (t : Tree) (held : List Line) :
    (b.expression t).onto held = b.recursiveCode t held := by
  induction t generalizing held with
  | leaf a => rw [expression_leaf, recursiveCode]
  | node op left right position ihl ihr =>
    rw [expression_node, onto_bind, ihl, recursiveCode]
    rcases b.recursiveCode left held with ⟨held₁, e | _⟩
    · rfl
    · simp only [onto_bind, ihr]
      rcases b.recursiveCode right held₁ with ⟨held₂, e | _⟩
      · rfl
      · simp [onto, emit, combine]

end Backend

/-- **The loops over the left edge are the plain recursions.**  For values and texts this is all.
For code, the loop appends to the lines of the emitter what the recursion appends: the lines of the
steps before the first leaf that is no number or cannot be pushed, and this leaf is the error.  So a
tree has a program in a backend if it has no such leaf, and only then. -/
theorem loop_eq_recursion (t : Tree) :
    (t.value = t.loop Tree.valuer ∧ t.value = t.recursiveValue) ∧
    (t.print = (t.loop Tree.printer "").map (·.2) ∧ t.print = t.recursivePrint) ∧
    ∀ b : Backend,
      b.expression t = t.loop b.emitter ∧
      (∀ held, (b.expression t).onto held = b.recursiveCode t held) ∧
      b.expression t = ⟨b.emitted t.steps, b.firstObstacle t.steps⟩ ∧
      (∀ e, b.lower t = .error e ↔ t.steps.findSome? b.obstacle? = some e) ∧
      ((∃ text, b.lower t = .ok text) ↔ t.AllNumbers b.dialect.Pushes) := by
  refine ⟨⟨t.visit_eq_loop Tree.valuer, t.value_eq_recursion⟩, ⟨?_, t.print_eq_recursion⟩, ?_⟩
  · rw [← Tree.visit_eq_loop, Tree.print]
  · intro b
    refine ⟨t.visit_eq_loop b.emitter, b.onto_expression t, b.expression_eq_emitted t,
      fun e => b.lower_eq_error_iff, b.exists_lower_iff⟩

/-- **A number without a program,** in either notation of x86, since it cannot be written. -/
theorem lower_of_long_number :
    let t : Tree := .number (Nat.pow 10 Text.maxDigits : Nat) none
    t.AllNumbers (fun _ => True) ∧ ∀ b ∈ [Backend.x64Linux, Backend.x64Intel],
      b.lower t = .error .tooManyDigits ∧ ¬ ∃ text, b.lower t = .ok text := by
  intro t
  have hlower {b : Backend} (hb : b.dialect ≠ .arm64) :
      b.lower t = .error .tooManyDigits ∧ ¬ ∃ text, b.lower t = .ok text := by
    have h := b.lower_number_of_digits hb (Nat.le_refl (Nat.pow 10 Text.maxDigits)) none
    refine ⟨h, ?_⟩
    rintro ⟨text, htext⟩
    cases h.symm.trans htext
  exact ⟨trivial,
    List.forall_mem_cons.mpr ⟨hlower nofun, List.forall_mem_singleton.mpr (hlower nofun)⟩⟩

end ArithAsm
