/-!
# Lines of assembly

An assembly program is a list of lines, each a label or an instruction; a directive is written like
an instruction.  The text of a program has every line ended by a line feed.
-/

namespace ArithAsm

/-- A line of an assembly program. -/
inductive Line where
  | label (name : String)
  | instruction (opcode : String) (operands : List String)
  deriving DecidableEq, Repr

namespace Line

/-- The text of a line, without its end.  An instruction is indented, and its operands stand after
a tab, with a comma and a blank between them. -/
def text : Line → String
  | label name => name ++ ":"
  | instruction opcode [] => "\t" ++ opcode
  | instruction opcode operands => "\t" ++ opcode ++ "\t" ++ ", ".intercalate operands

/-- The opcode is that of a directive to the assembler. -/
def isDirective (opcode : String) : Bool :=
  opcode.toList.head? = some '.'

end Line

/-- The text of a program. -/
def programText (lines : List Line) : String :=
  String.join (lines.map fun line => line.text ++ "\n")

end ArithAsm
