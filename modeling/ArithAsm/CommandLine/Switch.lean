/-!
# The switches of the command line

A switch is an option in one of its spellings: all have a long name after two dashes, and some have
a letter after one dash.  The three switches that ask for a dump instead of assembly exclude each
other.
-/

namespace ArithAsm.CommandLine

/-- What is printed in place of assembly. -/
inductive Dump where
  | tokens
  | ast
  | eval
  deriving DecidableEq, Repr

/-- An option of the command line. -/
inductive Switch where
  | help
  | backend
  | output
  | dump (d : Dump)
  deriving DecidableEq, Repr

namespace Switch

/-- All switches, in the order in which the help lists them. -/
def all : List Switch :=
  [help, backend, output, dump .tokens, dump .ast, dump .eval]

/-- The long spelling. -/
def longName : Switch → String
  | help => "--help"
  | backend => "--backend"
  | output => "--output"
  | dump .tokens => "--tokens"
  | dump .ast => "--ast"
  | dump .eval => "--eval"

/-- The letter of the short spelling. -/
def letter? : Switch → Option Char
  | help => some 'h'
  | backend => some 'b'
  | output => some 'o'
  | dump _ => none

/-- All spellings, the short one first. -/
def spellings (s : Switch) : List String :=
  (s.letter?.map fun c => String.ofList ['-', c]).toList ++ [s.longName]

/-- The switch as an error message names it. -/
def title (s : Switch) : String :=
  "/".intercalate s.spellings

/-- The switch needs a value. -/
def takesValue : Switch → Bool
  | backend => true
  | output => true
  | _ => false

/-- The switch with the given letter. -/
def ofLetter? (c : Char) : Option Switch :=
  all.find? (·.letter? = some c)

/-- The switches whose long spelling starts with the given characters. -/
def abbreviated (start : List Char) : List Switch :=
  all.filter fun s => start.isPrefixOf s.longName.toList

end Switch

end ArithAsm.CommandLine
