import ArithAsm.Assembly.Registry
import ArithAsm.CommandLine.Dash
import ArithAsm.CommandLine.Word

/-!
# The settings a command line asks for

The words of a command line are taken from left to right.  A switch in want of a value takes the
next word, which has to be positional; the first other positional word is the expression; whatever
remains is left over.  The first error, or a request for help, ends the reading, and only at the end
is it looked at whether there was an expression and whether anything is left over.

A separator in the place of a value is taken out like any other, so that the switch is given nothing
at all (`Given.nothing`).  That is no error of usage.  The program leaves the reading to a
library; what is modelled are its earlier releases, while later ones keep the two dashes as a value.
-/

namespace ArithAsm.CommandLine

/-- What a switch in want of a value is given. -/
inductive Given where
  | text (value : String)
  /-- Nothing, for there was a separator in the place of the value. -/
  | nothing
  deriving DecidableEq, Repr

/-- What is given with a value. -/
def Given.ofValue (value : String) : Given :=
  if value = "--" then nothing else text value

/-- What a command line asks for. -/
structure Settings where
  expression : String
  backend : Given
  output : Option Given
  dump : Option Dump
  deriving DecidableEq, Repr

/-- Why a command line gives no settings. -/
inductive Stop where
  /-- Help was asked for. -/
  | help
  | misuse (e : UsageError)
  deriving DecidableEq, Repr

/-- The choice that stands for the backend of the host. -/
def nativeChoice : String :=
  "native"

/-- The backends that can be chosen: the registered ones by name, and the one of the host. -/
def backendChoices (r : Registry) : List String :=
  r.names.mergeSort ++ [nativeChoice]

/-- What has been taken from a command line. -/
structure Taken where
  expression : Option String
  backend : Option Given
  output : Option Given
  dump : Option Dump
  leftOver : List String
  deriving DecidableEq, Repr

namespace Taken

/-- What has been taken before the first word. -/
def nothing : Taken :=
  ⟨none, none, none, none, []⟩

/-- One more argument is left over. -/
def leave (taken : Taken) (text : String) : Taken :=
  { taken with leftOver := taken.leftOver ++ [text] }

/-- Takes a switch with a value.  The last value given to a switch is the one that counts. -/
def assign (choices : List String) (taken : Taken) (value : String) : Switch → Except Stop Taken
  | .backend =>
    match Given.ofValue value with
    | .nothing => .ok { taken with backend := some .nothing }
    | .text name =>
      if name ∈ choices then .ok { taken with backend := some (.text name) }
      else .error (.misuse (.invalidChoice name choices))
  | .output => .ok { taken with output := some (.ofValue value) }
  | s => .error (.misuse (.valueIgnored s value))

/-- Takes a switch that has no value with it. -/
def turnOn (taken : Taken) : Switch → Except Stop Taken
  | .help => .error .help
  | .dump d =>
    match taken.dump with
    | none => .ok { taken with dump := some d }
    | some earlier =>
      if earlier = d then .ok taken else .error (.misuse (.conflict (.dump d) (.dump earlier)))
  | s => .error (.misuse (.valueMissing s))

/-- How the characters behind the letter for help end the reading.  They are letters of switches,
up to one that takes a value; behind that one stands its value, unless the next word is the value
(`valueFollows`).  From a character on that is no letter of a switch, the characters would be a
value of the switch for help, which takes none. -/
def cluster (valueFollows : Bool) : List Char → Stop
  | [] => .help
  | c :: rest =>
    match Switch.ofLetter? c with
    | none => .misuse (.valueIgnored .help (String.ofList (c :: rest)))
    | some .help => cluster valueFollows rest
    | some s => if rest.isEmpty && !valueFollows then .misuse (.valueMissing s) else .help

/-- Takes the words of a command line.  A separator leaves no trace if it stands beside the
expression; `beside` tells that the word before the first one is the expression. -/
def collect (choices : List String) : Bool → Taken → List Word → Except Stop Taken
  | _, taken, [] => .ok taken
  | _, taken, .positional text :: rest =>
    match taken.expression with
    | none => collect choices true { taken with expression := some text } rest
    | some _ => collect choices false (taken.leave text) rest
  | beside, taken, .separator :: rest =>
    if beside || (taken.expression.isNone && !rest.isEmpty) then collect choices false taken rest
    else collect choices false (taken.leave "--") rest
  | _, taken, .unknown text :: rest => collect choices false (taken.leave text) rest
  | _, taken, .switch s (some value) :: rest => do
    collect choices false (← taken.assign choices value s) rest
  | _, taken, .switch s none :: rest =>
    match s.takesValue, rest with
    | true, .positional value :: rest => do
      collect choices false (← taken.assign choices value s) rest
    | _, rest => do
      collect choices false (← taken.turnOn s) rest
  | _, _, .helpCluster behind :: .positional _ :: _ => .error (cluster true behind)
  | _, _, .helpCluster behind :: _ => .error (cluster false behind)

end Taken

namespace Settings

/-- The name of the backend that is meant by a choice. -/
def resolve (r : Registry) (host : Host) (choice : Given) : Except Stop Given :=
  if choice = .text nativeChoice then
    match r.select? (some host.system) (some host.machine) with
    | some b => .ok (.text b.name)
    | none => .error (.misuse (.hostUnsupported host))
  else
    .ok choice

/-- The expression as it was written: the blank before a hidden one is taken away. -/
def unhide (arguments : List Argument) (text : String) : String :=
  if text ∈ arguments.filterMap (·.hiddenText?) then String.ofList (text.toList.drop 1) else text

/-- **The settings that a list of arguments asks for.** -/
def ofArguments (r : Registry) (host : Host) (args : List String) : Except Stop Settings := do
  let arguments := Argument.arrange args
  let words ← (Word.ofTexts (arguments.map (·.text))).mapError .misuse
  let taken ← Taken.collect (backendChoices r) false .nothing words
  let some expression := taken.expression
    | throw (.misuse .expressionMissing)
  unless taken.leftOver.isEmpty do
    throw (.misuse (.unrecognized taken.leftOver))
  let backend ← resolve r host (taken.backend.getD (.text Registry.defaultName))
  return ⟨unhide arguments expression, backend, taken.output, taken.dump⟩

end Settings

end ArithAsm.CommandLine
