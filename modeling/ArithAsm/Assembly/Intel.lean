import ArithAsm.Assembly.Line

/-!
# The two notations of x86

An instruction of x86 can be written with its source operand first, where a dollar sign marks a
literal and a percent sign a register and the name of the instruction tells the width of its
operands, or with its destination operand first and without these marks.  `Line.toIntel` takes a
line from the first notation to the second one; labels are written alike in both.
-/

namespace ArithAsm.Line

/-- The name of an instruction in the notation with the destination operand first. -/
def intelName : String → String
  | "pushq" => "push"
  | "popq" => "pop"
  | "movabsq" => "mov"
  | "addq" => "add"
  | "subq" => "sub"
  | "imulq" => "imul"
  | "cqto" => "cqo"
  | "idivq" => "idiv"
  | "retq" => "ret"
  | opcode => opcode

/-- An operand without the mark that tells a literal or a register. -/
def unmarked (operand : String) : String :=
  match operand.toList with
  | '$' :: rest => String.ofList rest
  | '%' :: rest => String.ofList rest
  | _ => operand

/-- **The line in the other notation:** the instruction has its other name, and its operands stand
without their marks and in the other order. -/
def toIntel : Line → Line
  | label name => label name
  | instruction opcode operands => instruction (intelName opcode) (operands.reverse.map unmarked)

theorem unmarked_literal (text : String) : unmarked ("$" ++ text) = text := by
  have hlist : ("$" ++ text).toList = '$' :: text.toList := by simp
  rw [unmarked, hlist]
  exact String.ofList_toList

end ArithAsm.Line
