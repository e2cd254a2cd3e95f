import ArithAsm.CommandLine.UsageError
import ArithAsm.Text.DecimalDigit

/-!
# The words of a command line

Every argument is read as one word.  A switch is written in its long spelling, or in a beginning of
it that fits no other switch, with its value after an equals sign; or as one dash and its letter,
with its value behind it.  Behind the letter for help, which has no value, stand letters of further
switches.  Everything after the first `--` is positional.
-/

namespace ArithAsm.CommandLine

/-- An argument as it has been read. -/
inductive Word where
  | positional (text : String)
  /-- The two dashes that end the switches. -/
  | separator
  | switch (s : Switch) (value : Option String)
  /-- The letter for help with more characters behind it. -/
  | helpCluster (behind : List Char)
  | unknown (text : String)
  deriving DecidableEq, Repr

namespace Word

/-- What follows a dash is a decimal number: digits, or a point with digits behind it and perhaps
before it.  A line feed may follow the number. -/
def isNumeral (cs : List Char) : Bool :=
  let cs := if cs.getLast? = some '\n' then cs.dropLast else cs
  match cs.dropWhile Text.isDecimalDigit with
  | [] => !cs.isEmpty
  | '.' :: fraction => !fraction.isEmpty && fraction.all Text.isDecimalDigit
  | _ => false

/-- A name and, if there is an equals sign, what stands after the first one. -/
def splitValue (cs : List Char) : List Char × Option String :=
  match cs.dropWhile (· ≠ '=') with
  | [] => (cs, none)
  | _ :: value => (cs.takeWhile (· ≠ '='), some (String.ofList value))

/-- An argument that starts with two dashes. -/
def ofLong (text : String) : Except UsageError Word :=
  let (name, value) := splitValue text.toList
  match Switch.abbreviated name with
  | [s] => .ok (.switch s value)
  | [] => .ok (if ' ' ∈ text.toList then .positional text else .unknown text)
  | candidates => .error (.ambiguous text candidates)

/-- What is written behind the letter of a switch, if there is anything: an equals sign in front of
it is left out. -/
def behindLetter : List Char → Option (List Char)
  | [] => none
  | '=' :: value => some value
  | value => some value

/-- An argument of one dash, the character `c` and the characters `cs`. -/
def ofShort (c : Char) (cs : List Char) (text : String) : Word :=
  match Switch.ofLetter? c, behindLetter cs with
  | some .help, some (d :: ds) => .helpCluster (d :: ds)
  | some s, value => .switch s (value.map String.ofList)
  | none, _ => if isNumeral (c :: cs) || ' ' ∈ text.toList then .positional text else .unknown text

/-- An argument that is not the separator. -/
def ofText (text : String) : Except UsageError Word :=
  match text.toList with
  | '-' :: '-' :: _ => ofLong text
  | '-' :: c :: cs => .ok (ofShort c cs text)
  | _ => .ok (.positional text)

/-- **The words of a list of arguments.** -/
def ofTexts : List String → Except UsageError (List Word)
  | [] => .ok []
  | text :: rest =>
    if text = "--" then .ok (.separator :: rest.map .positional)
    else do
      let word ← ofText text
      let words ← ofTexts rest
      return word :: words

end Word

end ArithAsm.CommandLine
