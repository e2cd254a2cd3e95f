import ArithAsm.Assembly.Emission
import ArithAsm.Tree.Walk

/-!
# Backends

A backend writes programs for a stack machine in one dialect of assembly.  Every literal is pushed;
every operation pops its right operand into the secondary register and its left operand into the
primary one, combines them in the primary register and pushes it again.  The value of the whole is
popped into the primary register, in which a program returns.

The dialect fixes the instructions; the registers, the entry point and the host a backend stands
for are data of the backend.
-/

namespace ArithAsm

/-- A dialect of assembly. -/
inductive Dialect where
  /-- 64-bit x86, written with the source operand first. -/
  | att
  /-- 64-bit x86, written with the destination operand first. -/
  | intel
  /-- 64-bit ARM. -/
  | arm64
  deriving DecidableEq, Repr

/-- A dialect with the names it is used with.  The system and the machine tell the host the backend
writes for, if it writes for one. -/
structure Backend where
  dialect : Dialect
  name : String
  system : Option String
  machine : Option String
  entry : String
  primary : String
  secondary : String
  deriving DecidableEq, Repr

/-- The 16-bit fields of a number, the lowest first, up to the last one that is not zero; zero has
one field. -/
def halfwords (n : Nat) : List Nat :=
  if n < 0x10000 then [n] else n % 0x10000 :: halfwords (n / 0x10000)
termination_by n
decreasing_by omega

namespace Backend

open Emission Line

/-! ### The instructions of a dialect -/

/-- The lines before the code. -/
def prologue (b : Backend) : List Line :=
  match b.dialect with
  | .att => [instruction ".text" [], instruction ".globl" [b.entry], label b.entry]
  | .intel =>
    [instruction ".intel_syntax noprefix" [], instruction ".globl" [b.entry], label b.entry]
  | .arm64 =>
    [instruction ".text" [], instruction ".globl" [b.entry], instruction ".p2align" ["2"],
      label b.entry]

/-- The instruction that pushes a register. -/
def push (b : Backend) (register : String) : Line :=
  match b.dialect with
  | .att => instruction "pushq" [register]
  | .intel => instruction "push" [register]
  | .arm64 => instruction "str" [register, "[SP, #-16]!"]

/-- The instruction that pops into a register. -/
def pop (b : Backend) (register : String) : Line :=
  match b.dialect with
  | .att => instruction "popq" [register]
  | .intel => instruction "pop" [register]
  | .arm64 => instruction "ldr" [register, "[SP]", "#16"]

/-- A literal that a push instruction of x86 can hold: a signed word of 32 bits. -/
def fitsPush (value : Int) : Bool :=
  -0x80000000 ≤ value && value < 0x80000000

/-- The instructions that build a number in the scratch register of ARM, field by field. -/
def buildScratch (n : Nat) : List Line :=
  (halfwords n).zipIdx.map fun (field, i) =>
    match i with
    | 0 => instruction "movz" ["X9", "#" ++ toString field]
    | i => instruction "movk" ["X9", "#" ++ toString field, "lsl " ++ toString (16 * i)]

/-- The text of a literal, which x86 is given in one piece. -/
def numeral (value : Int) : Emission String :=
  match Text.decimal value with
  | .ok text => nothing text
  | .error _ => fail .tooManyDigits

/-- Pushes a literal.  On ARM a negative literal is taken modulo `2^64`, so there is none below
`-2^64`. -/
def const (b : Backend) (value : Int) : Emission PUnit :=
  match b.dialect with
  | .att => do
    let text ← numeral value
    if fitsPush value then emit [instruction "pushq" ["$" ++ text]]
    else emit [instruction "movabsq" ["$" ++ text, b.primary], b.push b.primary]
  | .intel => do
    let text ← numeral value
    if fitsPush value then emit [instruction "push" [text]]
    else emit [instruction "mov" [b.primary, text], b.push b.primary]
  | .arm64 =>
    let n := if value < 0 then value + 0x10000000000000000 else value
    if n < 0 then fail (.unencodable value)
    else emit (buildScratch n.toNat ++ [b.push "X9"])

/-- The instructions that combine the primary with the secondary register. -/
def operate (b : Backend) (op : Operator) : List Line :=
  match b.dialect, op with
  | .att, .add => [instruction "addq" [b.secondary, b.primary]]
  | .att, .sub => [instruction "subq" [b.secondary, b.primary]]
  | .att, .mul => [instruction "imulq" [b.secondary, b.primary]]
  | .att, .div => [instruction "cqto" [], instruction "idivq" [b.secondary]]
  | .intel, .add => [instruction "add" [b.primary, b.secondary]]
  | .intel, .sub => [instruction "sub" [b.primary, b.secondary]]
  | .intel, .mul => [instruction "imul" [b.primary, b.secondary]]
  | .intel, .div => [instruction "cqo" [], instruction "idiv" [b.secondary]]
  | .arm64, .add => [instruction "add" [b.primary, b.primary, b.secondary]]
  | .arm64, .sub => [instruction "sub" [b.primary, b.primary, b.secondary]]
  | .arm64, .mul => [instruction "mul" [b.primary, b.primary, b.secondary]]
  | .arm64, .div => [instruction "sdiv" [b.primary, b.primary, b.secondary]]

/-- The instruction that returns. -/
def ret (b : Backend) : Line :=
  match b.dialect with
  | .att => instruction "retq" []
  | .intel => instruction "ret" []
  | .arm64 => instruction "ret" []

/-! ### Programs -/

/-- The code of an operation once its operands are pushed. -/
def combine (b : Backend) (op : Operator) : List Line :=
  [b.pop b.secondary, b.pop b.primary] ++ b.operate op ++ [b.push b.primary]

/-- The code of a leaf. -/
def leaf (b : Backend) : Leaf → Emission PUnit
  | .number value _ => b.const value
  | a => fail (.malformed a)

/-- The visitor that emits the code of a tree. -/
def emitter (b : Backend) : Tree.Visitor Emission PUnit where
  enter _ := pure ⟨⟩
  leaf := b.leaf
  join op _ right := do
    right
    emit (b.combine op)

/-- **The code of a tree,** which pushes its value. -/
def expression (b : Backend) (t : Tree) : Emission PUnit :=
  t.visit b.emitter

@[simp] theorem expression_leaf (b : Backend) (a : Leaf) : b.expression (.leaf a) = b.leaf a :=
  Tree.visit_leaf b.emitter a

theorem expression_node (b : Backend) (op : Operator) (left right : Tree)
    (position : Option Int) :
    b.expression (.node op left right position) = (do
      b.expression left
      b.expression right
      emit (b.combine op)) := by
  simp [expression, emitter]

/-- The code that returns the value of a tree. -/
def body (b : Backend) (t : Tree) : Emission PUnit := do
  b.expression t
  emit [b.pop b.primary, b.ret]

/-- **The program of a tree,** as a text. -/
def lower (b : Backend) (t : Tree) : Except LowerError String :=
  let code := b.body t
  code.result.map fun _ => programText (b.prologue ++ code.lines)

end Backend

end ArithAsm
