import ArithAsm.Text.Decimal
import ArithAsm.Tree.Walk

/-!
# Trees as text

A number is printed in decimal, and an operation in parentheses as its operator, its left and its
right operand, with a blank between them (`print_node`).  The text is written from its start to its
end, so a long tree is printed in time linear in its text.  The first leaf that has no text is the
error of the whole.
-/

namespace ArithAsm

/-- The text of a leaf. -/
def Leaf.text : Leaf → Except PrintError String
  | .number v _ => Text.decimal v
  | .placeholder _ => .ok "base ast"
  | .foreign _ => .error .foreign

namespace Tree

/-- A text that is written from its start to its end, unless something in it has no text. -/
abbrev Writer := StateT String (Except PrintError)

/-- Writes a text after what is written already. -/
def write (text : String) : Writer PUnit :=
  fun out => .ok (⟨⟩, out ++ text)

/-- The visitor that writes a tree. -/
def printer : Visitor Writer PUnit where
  enter op := do
    write "("
    write (String.singleton op.symbol)
    write " "
  leaf a := do
    let text ← a.text
    write text
  join _ _ right := do
    write " "
    right
    write ")"

/-- **The text of a tree,** or the first error of its leaves. -/
def print (t : Tree) : Except PrintError String :=
  (t.visit printer "").map (·.2)

theorem visit_printer_leaf (a : Leaf) (out : String) :
    (Tree.leaf a).visit printer out = a.text.map fun text => (⟨⟩, out ++ text) := by
  rw [visit_leaf]
  change StateT.run (do let text ← a.text; write text : Writer PUnit) out = _
  cases a.text <;> rfl

theorem visit_printer_node (op : Operator) (left right : Tree) (position : Option Int)
    (out : String) :
    (Tree.node op left right position).visit printer out = (do
      let (_, out) ← left.visit printer (out ++ "(" ++ String.singleton op.symbol ++ " ")
      let (_, out) ← right.visit printer (out ++ " ")
      return (⟨⟩, out ++ ")")) := by
  rw [visit_node]
  change (left.visit printer _ >>= fun x => StateT.run (printer.join op x.1 _) x.2) = _
  rcases left.visit printer (out ++ "(" ++ String.singleton op.symbol ++ " ") with e | ⟨_, out⟩
  · rfl
  · change (right.visit printer _ >>= _) = (right.visit printer _ >>= _)
    rfl

theorem visit_printer (t : Tree) (out : String) :
    t.visit printer out = t.print.map fun text => (⟨⟩, out ++ text) := by
  induction t generalizing out with
  | leaf a =>
    rw [print, visit_printer_leaf, visit_printer_leaf]
    cases a.text <;> simp [Except.map]
  | node op left right position ihl ihr =>
    rw [print, visit_printer_node, visit_printer_node, ihl, ihl]
    cases left.print with
    | error e => rfl
    | ok l =>
      simp only [Except.map, bind, Except.bind, ihr]
      cases right.print with
      | error e => rfl
      | ok r => simp only [pure, Except.pure, String.append_assoc, String.empty_append]

@[simp] theorem print_leaf (a : Leaf) : (Tree.leaf a).print = a.text := by
  rw [print, visit_printer_leaf]
  cases a.text <;> simp [Except.map]

@[simp] theorem print_node (op : Operator) (left right : Tree) (position : Option Int) :
    (Tree.node op left right position).print = (do
      let l ← left.print
      let r ← right.print
      return "(" ++ String.singleton op.symbol ++ " " ++ l ++ " " ++ r ++ ")") := by
  rw [print, visit_printer_node, visit_printer]
  cases left.print with
  | error e => rfl
  | ok l =>
    simp only [Except.map, bind, Except.bind, visit_printer right]
    cases right.print with
    | error e => rfl
    | ok r => simp only [pure, Except.pure, String.empty_append]

end Tree

end ArithAsm
