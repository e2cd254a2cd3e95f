import ArithAsm.CommandLine.Usage
import ArithAsm.Compile
import ArithAsm.FileTree
import ArithAsm.Reporter

/-!
# A run of the compiler

What the compiler does for a list of arguments, up to the one thing it has to leave to the system: a
`Plan` ends with an outcome, or with a failure that is not reported, or it asks for a file to be
written and goes on with the answer.  `Plan.runIn` is what a plan does in a given file tree.

Every stage reports its errors with the name of the stage and, where there is one, the place in the
source.  A file that cannot be written is logged, and makes the run fail at its end.  The parser
keeps track of `limit` open parentheses, as many as the stack of the machine allows it; where on
this stack it notices that they are too many differs from one machine to the next, and so this one
error of the parser is given no place, and its report no caret.
-/

namespace ArithAsm

open CommandLine

/-- How a run ended: its exit status and what it printed. -/
structure Outcome where
  exit : Nat
  stdout : String
  stderr : String
  deriving DecidableEq, Repr

/-- How a run ends that got no settings. -/
def CommandLine.Stop.outcome (r : Registry) (path : String) : Stop → Outcome
  | .help => ⟨0, Usage.help (Usage.programName path) (backendChoices r), ""⟩
  | .misuse e => ⟨2, "", Usage.complaint (Usage.programName path) (backendChoices r) e⟩

/-- Why a run ended without an outcome. -/
inductive Fault where
  /-- A failure that no stage reports. -/
  | failure (f : Failure)
  /-- The switch for the backend was given nothing. -/
  | backendMissing
  /-- The switch for the output file was given nothing. -/
  | outputMissing
  /-- The name of the output file holds the character that ends names. -/
  | nulInName
  deriving DecidableEq, Repr

/-- The wording of the fault. -/
def Fault.message : Fault → String
  | failure f => f.message
  | backendMissing => "unhashable type: 'list'"
  | outputMissing => "expected str, bytes or os.PathLike object, not list"
  | nulInName => "embedded null byte"

/-- What a run does. -/
inductive Plan where
  | finish (o : Outcome)
  | abort (f : Fault)
  /-- Writes a file and goes on, with the reason if the file could not be written. -/
  | write (fileName contents : String) (resume : Option String → Outcome)

namespace Failure

/-- What an error with a position is about. -/
def spotAt : Option Nat → Spot
  | none => .nothing
  | some position => .character position

/-- What is reported of a failure, if it is one that is reported. -/
def diagnostic? : Failure → Option Diagnostic
  | lex (.tooManyDigits _) => none
  | lex e => some ⟨e.message, spotAt e.position?⟩
  | parse .tooDeep => some ⟨ParseError.tooDeep.message, .source⟩
  | parse (.expected what found) =>
    some ⟨(ParseError.expected what found).message, .character found.position⟩
  | eval .divisionByZero => some (.plain "division by zero")
  | _ => none

end Failure

namespace Plan

/-- Ends with something printed. -/
def printing (text : String) : Plan :=
  .finish ⟨0, text, ""⟩

/-- Ends with a failure in a stage. -/
def failing (reporter : Reporter) (stage : String) (f : Failure) : Plan :=
  match f.diagnostic? with
  | some d => .finish ⟨1, "", (reporter.enter (some stage)).crash d⟩
  | none => .abort (.failure f)

/-- How a run ends whose stages are through. -/
def ending (reporter : Reporter) (printed : String) : Outcome :=
  match (reporter.checkpoint (some "end")).2 with
  | none => ⟨0, printed, ""⟩
  | some crash => ⟨1, printed, crash⟩

/-- Puts assembly where it is wanted: to a file, or on the standard output. -/
def delivering (reporter : Reporter) (asm : String) : Option Given → Plan
  | none => .finish (ending reporter asm)
  | some .nothing => .abort .outputMissing
  | some (.text fileName) =>
    let reporter := reporter.enter (some "asm wr")
    if '\x00' ∈ fileName.toList then .abort .nulInName
    else .write fileName asm fun
      | none => ending reporter ""
      | some reason =>
        ending (reporter.log ("cannot write output file " ++ fileName ++ ": " ++ reason)) ""

/-- What is done with a tree. -/
def treating (r : Registry) (s : Settings) (reporter : Reporter) (t : Tree) : Plan :=
  match s.dump with
  | some .eval =>
    match t.value with
    | .error e => failing reporter "eval" (.eval e)
    | .ok v => printing (toString v ++ "\n")
  | some _ =>
    match t.print with
    | .error e => failing reporter "parsing" (.print e)
    | .ok text => printing (text ++ "\n")
  | none =>
    match s.backend with
    | .nothing => .abort .backendMissing
    | .text name =>
      match r.lower t name with
      | .error f => failing reporter "asm gen" f
      | .ok asm => delivering reporter asm s.output

/-- The run for some settings, by a parser that keeps track of `limit` open parentheses. -/
def ofSettings (r : Registry) (limit : Nat) (s : Settings) : Plan :=
  let reporter := Reporter.start (some s.expression)
  match tokenize s.expression with
  | .error e => failing reporter "lexing" (.lex e)
  | .ok tokens =>
    if s.dump = some .tokens then
      match tokens.mapM Token.label with
      | .error e => failing reporter "lexing" (.print e)
      | .ok labels => printing (String.join (labels.map (· ++ "\n")))
    else
      match parse limit tokens with
      | .error e => failing reporter "parsing" (.parse e)
      | .ok t => treating r s reporter t

/-- **The run for a list of arguments** of the program that is found at `path`. -/
def ofArguments (r : Registry) (limit : Nat) (host : Host) (path : String) (args : List String) :
    Plan :=
  match Settings.ofArguments r host args with
  | .error stop => .finish (stop.outcome r path)
  | .ok settings => ofSettings r limit settings

/-- **What a plan does in a file tree.**  What is written to a standard stream comes out of it
before what the outcome prints. -/
def runIn (tree : FileTree) : Plan → Except Fault (Outcome × FileTree)
  | finish o => .ok (o, tree)
  | abort f => .error f
  | write fileName contents resume =>
    let result := tree.write fileName contents
    let o := resume (result.failure.map (·.describe fileName))
    .ok (⟨o.exit, result.stdout ++ o.stdout, result.stderr ++ o.stderr⟩, result.tree)

end Plan

end ArithAsm
