/-!
# Arguments that start with a dash

An expression or the value of a switch may start with a dash, and would then be taken for a switch.
So an argument with a dash that follows a switch in want of a value is glued to that switch, and one
that goes on like an expression is put behind a blank.  `text` is the argument as it is read
afterwards; the texts that got a blank are remembered, for it has to be taken away again.
-/

namespace ArithAsm.CommandLine

/-- The spellings of the switches that may have their value in the next argument. -/
def valueSpellings : List String :=
  ["-o", "--output", "-b", "--backend"]

/-- The characters that an expression with a dash in front can go on with: digits, signs,
parentheses and layout. -/
def afterDash : List Char :=
  ['0', '1', '2', '3', '4', '5', '6', '7', '8', '9', '(', '+', ' ', '\t', '\n', '\r', '\x0c',
    '\x0b']

/-- An argument, set out to be read. -/
inductive Argument where
  | plain (text : String)
  /-- A spelling of a switch and its value. -/
  | glued (spelling value : String)
  /-- An expression that starts with a dash. -/
  | hidden (text : String)
  deriving DecidableEq, Repr

namespace Argument

/-- The argument as it is read.  A long spelling is parted from its value by an equals sign. -/
def text : Argument → String
  | plain text => text
  | glued spelling value =>
    if "--".toList.isPrefixOf spelling.toList then spelling ++ "=" ++ value else spelling ++ value
  | hidden text => " " ++ text

/-- The text read for a hidden expression. -/
def hiddenText? : Argument → Option String
  | hidden text => some (" " ++ text)
  | _ => none

/-- The text starts with a dash. -/
def hasDash (text : String) : Bool :=
  text.toList.head? = some '-'

/-- The text is a dash and goes on like an expression. -/
def startsExpression (text : String) : Bool :=
  match text.toList with
  | '-' :: c :: _ => c ∈ afterDash
  | _ => false

/-- An argument that belongs to no switch before it. -/
def single (text : String) : Argument :=
  if startsExpression text then hidden text else plain text

/-- **Sets out the arguments of a command line.** -/
def arrange : List String → List Argument
  | [] => []
  | [text] => [single text]
  | spelling :: value :: rest =>
    if spelling ∈ valueSpellings ∧ hasDash value then glued spelling value :: arrange rest
    else single spelling :: arrange (value :: rest)

end Argument

end ArithAsm.CommandLine
