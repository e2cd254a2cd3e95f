import ArithAsm.Machine.X64

/-!
# The 64-bit x86 machine in the other notation

The machine of `ArithAsm.Machine.X64`, with its states, its faults and its division, as it runs
programs that are written with the destination operand first.  Registers and literals are told apart
by their texts alone.
-/

namespace ArithAsm.X64.Intel

/-- The register an operand names. -/
def register? : String → Option Register
  | "rax" => some .rax
  | "rdi" => some .rdi
  | "rdx" => some .rdx
  | _ => none

/-- What an instruction of two registers puts into the first one. -/
def combine? : String → Option (Int → Int → Int)
  | "add" => some fun target source => wrap (target + source)
  | "sub" => some fun target source => wrap (target - source)
  | "imul" => some fun target source => wrap (target * source)
  | _ => none

/-- Carries out an instruction that does not return. -/
def execute (wrapsQuotient : Bool) (s : State) (opcode : String) (operands : List String) :
    Except Fault State :=
  let illegal := Except.error (Fault.illegal (.instruction opcode operands))
  match opcode, operands with
  | "push", [source] =>
    match register? source, source.toInt? with
    | some r, _ => .ok { s with stack := s.get r :: s.stack }
    | none, some v =>
      if -0x80000000 ≤ v ∧ v < 0x80000000 then .ok { s with stack := v :: s.stack } else illegal
    | none, none => illegal
  | "pop", [target] =>
    match register? target, s.stack with
    | some r, v :: rest => .ok ({ s with stack := rest }.set v r)
    | some _, [] => .error .emptyStack
    | none, _ => illegal
  | "mov", [target, source] =>
    match register? target, source.toInt? with
    | some r, some v => .ok (s.set (wrap v) r)
    | _, _ => illegal
  | "cqo", [] => .ok { s with rdx := if s.rax < 0 then -1 else 0 }
  | "idiv", [source] =>
    match register? source with
    | some r => divide wrapsQuotient s (s.get r)
    | none => illegal
  | opcode, [target, source] =>
    match combine? opcode, register? target, register? source with
    | some f, some r, some r' => .ok (s.set (f (s.get r) (s.get r')) r)
    | _, _, _ => illegal
  | _, _ => illegal

/-- **Runs a program** up to its return.  The answer is the state there, with the lines that follow
the return. -/
def run (wrapsQuotient : Bool) (s : State) : List Line → Except Fault (State × List Line)
  | [] => .error .noReturn
  | .label _ :: rest => run wrapsQuotient s rest
  | .instruction opcode operands :: rest =>
    if Line.isDirective opcode then run wrapsQuotient s rest
    else if opcode = "ret" ∧ operands = [] then .ok (s, rest)
    else
      match execute wrapsQuotient s opcode operands with
      | .ok s => run wrapsQuotient s rest
      | .error e => .error e

end ArithAsm.X64.Intel
