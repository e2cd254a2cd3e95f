import ArithAsm.Assembly.Line
import ArithAsm.Word

/-!
# The 64-bit x86 machine

The part of the processor that a program for the stack machine uses: three registers and a stack,
all of them holding signed words, and ten instructions in the notation with the source operand
first.  Labels and directives do nothing.  A run goes from line to line until it returns, and what
keeps it from returning is a `Fault`.

Division divides a number of 128 bits, the upper half of which has to be set by extending the sign
of the lower one.  Processors refuse a quotient that is not a word; `wrapsQuotient` chooses a
machine that wraps it instead.
-/

namespace ArithAsm.X64

/-- The registers of the machine. -/
inductive Register where
  | rax
  | rdi
  | rdx
  deriving DecidableEq, Repr

/-- The register an operand names. -/
def Register.ofOperand? : String → Option Register
  | "%rax" => some .rax
  | "%rdi" => some .rdi
  | "%rdx" => some .rdx
  | _ => none

/-- The literal an operand gives: a dollar sign and a decimal number. -/
def immediate? (operand : String) : Option Int :=
  match operand.toList with
  | '$' :: digits => (String.ofList digits).toInt?
  | _ => none

/-- The registers and the stack, the top of which comes first. -/
structure State where
  rax : Int
  rdi : Int
  rdx : Int
  stack : List Int
  deriving DecidableEq, Repr

namespace State

/-- The contents of a register. -/
def get (s : State) : Register → Int
  | .rax => s.rax
  | .rdi => s.rdi
  | .rdx => s.rdx

/-- The state with another value in a register. -/
def set (s : State) (value : Int) : Register → State
  | .rax => { s with rax := value }
  | .rdi => { s with rdi := value }
  | .rdx => { s with rdx := value }

end State

/-- What keeps a run from returning. -/
inductive Fault where
  /-- The divisor is zero, or the quotient is no word. -/
  | divide
  /-- A pop from the empty stack. -/
  | emptyStack
  /-- A line the machine does not know. -/
  | illegal (line : Line)
  /-- The program ends without a return. -/
  | noReturn
  deriving DecidableEq, Repr

/-- The signed number of 128 bits with the given halves. -/
def wide (upper lower : Int) : Int :=
  (upper * 0x10000000000000000 + lower % 0x10000000000000000).bmod
    0x100000000000000000000000000000000

/-- Divides the number in `rdx` and `rax`. -/
def divide (wrapsQuotient : Bool) (s : State) (divisor : Int) : Except Fault State :=
  let dividend := wide s.rdx s.rax
  let quotient := dividend.tdiv divisor
  if divisor = 0 ∨ ¬ (wrapsQuotient ∨ IsWord quotient) then .error .divide
  else .ok { s with rax := wrap quotient, rdx := wrap (dividend.tmod divisor) }

/-- What an instruction of two registers puts into the second one. -/
def combine? : String → Option (Int → Int → Int)
  | "addq" => some fun source target => wrap (target + source)
  | "subq" => some fun source target => wrap (target - source)
  | "imulq" => some fun source target => wrap (target * source)
  | _ => none

/-- Carries out an instruction that does not return. -/
def execute (wrapsQuotient : Bool) (s : State) (opcode : String) (operands : List String) :
    Except Fault State :=
  let illegal := Except.error (Fault.illegal (.instruction opcode operands))
  match opcode, operands with
  | "pushq", [source] =>
    match Register.ofOperand? source, immediate? source with
    | some r, _ => .ok { s with stack := s.get r :: s.stack }
    | none, some v =>
      if -0x80000000 ≤ v ∧ v < 0x80000000 then .ok { s with stack := v :: s.stack } else illegal
    | none, none => illegal
  | "popq", [target] =>
    match Register.ofOperand? target, s.stack with
    | some r, v :: rest => .ok ({ s with stack := rest }.set v r)
    | some _, [] => .error .emptyStack
    | none, _ => illegal
  | "movabsq", [source, target] =>
    match immediate? source, Register.ofOperand? target with
    | some v, some r => .ok (s.set (wrap v) r)
    | _, _ => illegal
  | "cqto", [] => .ok { s with rdx := if s.rax < 0 then -1 else 0 }
  | "idivq", [source] =>
    match Register.ofOperand? source with
    | some r => divide wrapsQuotient s (s.get r)
    | none => illegal
  | opcode, [source, target] =>
    match combine? opcode, Register.ofOperand? source, Register.ofOperand? target with
    | some f, some r, some r' => .ok (s.set (f (s.get r) (s.get r')) r')
    | _, _, _ => illegal
  | _, _ => illegal

/-- **Runs a program** up to its return.  The answer is the state there, with the lines that follow
the return. -/
def run (wrapsQuotient : Bool) (s : State) : List Line → Except Fault (State × List Line)
  | [] => .error .noReturn
  | .label _ :: rest => run wrapsQuotient s rest
  | .instruction opcode operands :: rest =>
    if Line.isDirective opcode then run wrapsQuotient s rest
    else if opcode = "retq" ∧ operands = [] then .ok (s, rest)
    else
      match execute wrapsQuotient s opcode operands with
      | .ok s => run wrapsQuotient s rest
      | .error e => .error e

/-- The states a run passes through, from the one it starts in to the one it returns or faults
in. -/
def visited (wrapsQuotient : Bool) (s : State) : List Line → List State
  | [] => [s]
  | .label _ :: rest => visited wrapsQuotient s rest
  | .instruction opcode operands :: rest =>
    if Line.isDirective opcode then visited wrapsQuotient s rest
    else if opcode = "retq" ∧ operands = [] then [s]
    else
      match execute wrapsQuotient s opcode operands with
      | .ok next => s :: visited wrapsQuotient next rest
      | .error _ => [s]

theorem getLast?_visited {wrapsQuotient : Bool} {s final : State} {lines after : List Line}
    (h : run wrapsQuotient s lines = .ok (final, after)) :
    (visited wrapsQuotient s lines).getLast? = some final := by
  fun_induction run wrapsQuotient s lines with
  | case1 s => simp at h
  | case2 s name rest ih => exact ih h
  | case3 s opcode operands rest hd ih =>
    rw [visited, if_pos hd]
    exact ih h
  | case4 s opcode operands rest hd hr =>
    rw [visited, if_neg hd, if_pos hr]
    simp_all
  | case5 s opcode operands rest hd hr next he ih =>
    simp only [visited, if_neg hd, if_neg hr, he]
    rw [List.getLast?_cons, ih h]
    rfl
  | case6 s opcode operands rest hd hr e he => simp at h

end ArithAsm.X64
