import ArithAsm.Assembly.Line
import ArithAsm.Word

/-!
# The 64-bit ARM machine

The part of the processor that a program for the stack machine uses: three registers and a stack of
slots of 16 bytes, all of them holding words, which are kept as their residues modulo `2^64`, and
the stack pointer as its displacement from where it was at the start.  Division truncates the
quotient of the signed words toward zero, and gives zero for the divisor zero.  A run ends at the
first return.
-/

namespace ArithAsm.Arm64

/-- The registers of the machine. -/
inductive Register where
  | x0
  | x1
  | x9
  deriving DecidableEq, Repr

/-- The register an operand names. -/
def Register.ofOperand? : String → Option Register
  | "X0" => some .x0
  | "X1" => some .x1
  | "X9" => some .x9
  | _ => none

/-- The literal an operand gives: a number sign and a decimal number. -/
def immediate? (operand : String) : Option Nat :=
  match operand.toList with
  | '#' :: digits => (String.ofList digits).toNat?
  | _ => none

/-- The weight that a shift gives to a field of 16 bits in a word. -/
def weight? : String → Option Nat
  | "lsl 16" => some 0x10000
  | "lsl 32" => some 0x100000000
  | "lsl 48" => some 0x1000000000000
  | _ => none

/-- The registers, the stack with its top in front, and the displacement of the stack pointer. -/
structure State where
  x0 : Nat
  x1 : Nat
  x9 : Nat
  stack : List Nat
  sp : Int
  deriving DecidableEq, Repr

namespace State

/-- The contents of a register. -/
def get (s : State) : Register → Nat
  | .x0 => s.x0
  | .x1 => s.x1
  | .x9 => s.x9

/-- The state with another value in a register. -/
def set (s : State) (value : Nat) : Register → State
  | .x0 => { s with x0 := value }
  | .x1 => { s with x1 := value }
  | .x9 => { s with x9 := value }

end State

/-- What keeps a run from returning. -/
inductive Fault where
  /-- A pop from the empty stack. -/
  | emptyStack
  /-- A line the machine does not know. -/
  | illegal (line : Line)
  /-- The program ends without a return. -/
  | noReturn
  deriving DecidableEq, Repr

/-- The residue of an integer. -/
def residue (v : Int) : Nat :=
  (v % 0x10000000000000000).toNat

/-- The word with another field of 16 bits in the place of a weight. -/
def insertField (word field weight : Nat) : Nat :=
  word - (word / weight % 0x10000) * weight + field * weight

/-- What an instruction of three registers puts into the first one. -/
def combine? : String → Option (Int → Int → Int)
  | "add" => some (· + ·)
  | "sub" => some (· - ·)
  | "mul" => some (· * ·)
  | "sdiv" => some fun x y => (wrap x).tdiv (wrap y)
  | _ => none

/-- Carries out an instruction that does not return. -/
def execute (s : State) (opcode : String) (operands : List String) : Except Fault State :=
  let illegal := Except.error (Fault.illegal (.instruction opcode operands))
  match opcode, operands with
  | "movz", [target, source] =>
    match Register.ofOperand? target, immediate? source with
    | some r, some field => if field < 0x10000 then .ok (s.set field r) else illegal
    | _, _ => illegal
  | "movk", [target, source, place] =>
    match Register.ofOperand? target, immediate? source, weight? place with
    | some r, some field, some weight =>
      if field < 0x10000 then .ok (s.set (insertField (s.get r) field weight) r) else illegal
    | _, _, _ => illegal
  | "str", [source, "[SP, #-16]!"] =>
    match Register.ofOperand? source with
    | some r => .ok { s with stack := s.get r :: s.stack, sp := s.sp - 16 }
    | none => illegal
  | "ldr", [target, "[SP]", "#16"] =>
    match Register.ofOperand? target, s.stack with
    | some r, v :: rest => .ok ({ s with stack := rest, sp := s.sp + 16 }.set v r)
    | some _, [] => .error .emptyStack
    | none, _ => illegal
  | opcode, [target, left, right] =>
    match combine? opcode, Register.ofOperand? target, Register.ofOperand? left,
      Register.ofOperand? right with
    | some f, some r, some a, some b => .ok (s.set (residue (f (s.get a) (s.get b))) r)
    | _, _, _, _ => illegal
  | _, _ => illegal

/-- **Runs a program** up to its return.  The answer is the list of the states the run goes through,
from the one it starts in to the one it returns in, with the lines that follow the return. -/
def run (s : State) : List Line → Except Fault (List State × List Line)
  | [] => .error .noReturn
  | .label _ :: rest => run s rest
  | .instruction opcode operands :: rest =>
    if Line.isDirective opcode then run s rest
    else if opcode = "ret" ∧ operands = [] then .ok ([s], rest)
    else
      match execute s opcode operands with
      | .error e => .error e
      | .ok next => (run next rest).map fun (states, after) => (s :: states, after)

end ArithAsm.Arm64
