import ArithAsm.CommandLine.Settings

/-!
# Usage and help

The usage names the program and shows its options, filled into lines of at most 78 columns, with the
expression on a line of its own.  The lines after the first are indented to where the first option
stands; a program with a long name has the first line for itself, and the others are indented by the
width of the word before it.  A gap in the usage, which only the name can bring in, is one empty
line at most.
-/

namespace ArithAsm.CommandLine

namespace Usage

/-- The columns of a line. -/
def width : Nat :=
  78

/-- The word in front of the usage. -/
def heading : String :=
  "usage: "

/-- The name of a program that is found at a path: what stands behind the last slash. -/
def programName (path : String) : String :=
  String.ofList (path.toList.reverse.takeWhile (· ≠ '/')).reverse

/-- The choices of a switch as usage and help show them. -/
def choiceText (choices : List String) : String :=
  "\x7b" ++ ",".intercalate choices ++ "\x7d"

/-- The options as the usage shows them, in the parts that are not broken. -/
def parts (choices : List String) : List String :=
  ["[-h]", "[-b " ++ choiceText choices ++ "]", "[-o OUTPUT]", "[--tokens | --ast | --eval]"]

/-- Some blanks. -/
def blanks (n : Nat) : String :=
  String.ofList (List.replicate n ' ')

/-- Fills parts into lines, after a first line that is `line` already.  A part goes to a new line if
it would end beyond the width, unless it is the first of its line. -/
def fill (indent : String) : String → List String → List String
  | line, [] => [line]
  | line, part :: rest =>
    if line.length + 1 + part.length > width then line :: fill indent (indent ++ part) rest
    else fill indent (line ++ " " ++ part) rest

/-- The lines of the usage. -/
def lines (program : String) (choices : List String) : List String :=
  let first := heading ++ program
  if 4 * first.length ≤ 3 * width then
    let indent := blanks (first.length + 1)
    fill indent first (parts choices) ++ [indent ++ "expression"]
  else
    let indent := blanks heading.length
    let body := match parts choices with
      | [] => []
      | part :: rest => fill indent (indent ++ part) rest
    first :: body ++ [indent ++ "expression"]

/-- The characters with at most two line feeds in a row, behind `run` line feeds. -/
def closeGaps (run : Nat) : List Char → List Char
  | [] => []
  | c :: rest =>
    if c ≠ '\n' then c :: closeGaps 0 rest
    else if run < 2 then c :: closeGaps (run + 1) rest
    else closeGaps run rest

/-- **The usage of a program.** -/
def text (program : String) (choices : List String) : String :=
  let usage := String.join ((lines program choices).map (· ++ "\n"))
  String.ofList (closeGaps 0 usage.toList)

/-- The explanations of the options. -/
def explanation (choices : List String) : List String :=
  [ "",
    "compile an arithmetic expression to assembly",
    "",
    "positional arguments:",
    "  expression            expression to compile, e.g. \"2*(3+4)\"",
    "",
    "options:",
    "  -h, --help            show this help message and exit",
    "  -b " ++ choiceText choices ++ ", --backend " ++ choiceText choices,
    "                        target assembly, \"native\" for the host (default:",
    "                        x64-linux)",
    "  -o OUTPUT, --output OUTPUT",
    "                        write the assembly to OUTPUT instead of stdout",
    "  --tokens              print the token sequence and stop",
    "  --ast                 print the syntax tree and stop",
    "  --eval                print the value of the expression and stop"]

/-- The help of a program. -/
def help (program : String) (choices : List String) : String :=
  text program choices ++ String.join ((explanation choices).map (· ++ "\n"))

/-- The message for a misused command line. -/
def complaint (program : String) (choices : List String) (e : UsageError) : String :=
  text program choices ++ program ++ ": error: " ++ e.message ++ "\n"

end Usage

end ArithAsm.CommandLine
