import ArithAsm.Text.Quoted
import ArithAsm.Word

/-!
# The four arithmetic operators

An operator is written as one character, is known to the assembler by a three letter name, and
combines two integers into a machine word.  Division truncates toward zero, as the processors'
signed division does, and is the only operation that can fail.
-/

namespace ArithAsm

/-- A binary operator of the expression language. -/
inductive Operator where
  | add
  | sub
  | mul
  | div
  deriving DecidableEq, Repr

/-- Why an expression has no value. -/
inductive EvalError where
  /-- A division met the divisor zero. -/
  | divisionByZero
  /-- A leaf of the tree is a node without a value. -/
  | noValue
  /-- What stands in place of a node is none. -/
  | foreign
  deriving DecidableEq, Repr

namespace EvalError

/-- The wording of the error. -/
def message : EvalError → String
  | divisionByZero => "integer division or modulo by zero"
  | noValue => "evaluate on base ast"
  | foreign => "'str' object has no attribute 'evaluate'"

end EvalError

namespace Operator

/-- All operators, in the order of their declaration. -/
def all : List Operator :=
  [add, sub, mul, div]

/-- The character that writes the operator in an expression. -/
def symbol : Operator → Char
  | add => '+'
  | sub => '-'
  | mul => '*'
  | div => '/'

/-- The operator a character writes. -/
def ofSymbol? (c : Char) : Option Operator :=
  all.find? (·.symbol = c)

/-- The operator a text names: the text is its symbol and nothing else. -/
def ofText? (text : String) : Option Operator :=
  match text.toList with
  | [c] => ofSymbol? c
  | _ => none

/-- The wording of the error that a text names no operator. -/
def invalidMessage (text : String) : String :=
  Text.quoted text ++ " is not a valid Operator"

/-- The operator's name in assembly. -/
def opcode : Operator → String
  | add => "add"
  | sub => "sub"
  | mul => "mul"
  | div => "div"

/-- The operator on integers.  A quotient is truncated toward zero. -/
def exact : Operator → Int → Int → Int
  | add, x, y => x + y
  | sub, x, y => x - y
  | mul, x, y => x * y
  | div, x, y => x.tdiv y

/-- **The operator on words.**  The operands may be any integers; the exact result is wrapped. -/
def apply (op : Operator) (x y : Int) : Except EvalError Int :=
  if op = div ∧ y = 0 then .error .divisionByZero else .ok (wrap (op.exact x y))

@[simp] theorem ofSymbol?_symbol (op : Operator) : ofSymbol? op.symbol = some op := by
  cases op <;> rfl

theorem symbol_inj {op op' : Operator} (h : op.symbol = op'.symbol) : op = op' :=
  Option.some.inj (by rw [← ofSymbol?_symbol, h, ofSymbol?_symbol])

theorem ofSymbol?_eq_some_iff {c : Char} {op : Operator} :
    ofSymbol? c = some op ↔ c = op.symbol := by
  constructor
  · intro h
    have hc := List.find?_some h
    simp only [decide_eq_true_eq] at hc
    exact hc.symm
  · rintro rfl
    exact ofSymbol?_symbol op

theorem apply_eq_error_iff {op : Operator} {x y : Int} {e : EvalError} :
    op.apply x y = .error e ↔ (op = div ∧ y = 0) ∧ e = .divisionByZero := by
  unfold apply
  by_cases h : op = div ∧ y = 0
  · simp [h, eq_comm]
  · simp [h]

theorem apply_of_ne_div {op : Operator} (h : op ≠ div) (x y : Int) :
    op.apply x y = .ok (wrap (op.exact x y)) := by
  simp [apply, h]

theorem apply_isWord {op : Operator} {x y v : Int} (h : op.apply x y = .ok v) : IsWord v := by
  unfold apply at h
  split at h
  · simp at h
  · rw [← Except.ok.inj h]
    exact wrap_isWord _

end Operator

end ArithAsm
