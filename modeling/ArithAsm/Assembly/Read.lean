import ArithAsm.Assembly.Line

/-!
# Reading assembly

The text of a program is read back line by line: a line that starts with a tab is an instruction, a
line that ends with a colon is a label.  Operands are parted by a comma and a blank, but not within
brackets, which hold an address.
-/

namespace ArithAsm

namespace Line

/-- Puts a character in front of the first of some texts. -/
def attach (c : Char) : List (List Char) → List (List Char)
  | [] => [[c]]
  | text :: texts => (c :: text) :: texts

/-- The operands in a text; `bracketed` tells that a bracket is open. -/
def splitOperands (bracketed : Bool) : List Char → List (List Char)
  | [] => [[]]
  | ',' :: ' ' :: rest =>
    if bracketed then attach ',' (attach ' ' (splitOperands true rest))
    else [] :: splitOperands false rest
  | c :: rest => attach c (splitOperands (c = '[' || (bracketed && c ≠ ']')) rest)

/-- The line with the given text. -/
def ofText? : List Char → Option Line
  | '\t' :: rest =>
    let opcode := String.ofList (rest.takeWhile (· ≠ '\t'))
    match rest.dropWhile (· ≠ '\t') with
    | [] => some (.instruction opcode [])
    | _ :: operands =>
      some (.instruction opcode ((splitOperands false operands).map String.ofList))
  | cs => if cs.getLast? = some ':' then some (.label (String.ofList cs.dropLast)) else none

end Line

/-- **The lines of a program,** read from its text. -/
def readProgram (text : String) : Option (List Line) :=
  (text.toList.splitOn '\n').dropLast.mapM Line.ofText?

end ArithAsm
