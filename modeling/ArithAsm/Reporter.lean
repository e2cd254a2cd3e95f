import ArithAsm.Text.Blank

/-!
# Reporting errors

A reporter knows the stage of the work that goes on, the source that is worked on, and the errors
that have been logged.  Logged errors do not stop the work; they are shown, with the error that does
stop it, by `crash`, at the latest at the next `checkpoint`.  The text of a crash ends with the
source, and with a caret below the character the error is about.
-/

namespace ArithAsm

/-- What of the source an error is about. -/
inductive Spot where
  | nothing
  /-- The source as a whole, without a caret, for an error whose place depends on the machine. -/
  | source
  /-- One of its characters.  A negative number counts from the end of the source. -/
  | character (position : Int)
  deriving DecidableEq, Repr

/-- An error to be reported. -/
structure Diagnostic where
  message : String
  spot : Spot
  deriving DecidableEq, Repr

/-- An error that has nothing to do with the source. -/
def Diagnostic.plain (message : String) : Diagnostic :=
  ⟨message, .nothing⟩

/-- The state of error reporting. -/
structure Reporter where
  backlog : List String
  stage : Option String
  source : Option String
  deriving DecidableEq, Repr

namespace Reporter

/-- A reporter before any stage. -/
def start (source : Option String) : Reporter :=
  ⟨[], none, source⟩

/-- A stage as it stands before an error. -/
def stageMark (stage : String) : String :=
  "\x7b" ++ stage ++ "\x7d \t| "

/-- The number of characters before a position, in a source of `length` characters. -/
def charsBefore (length : Nat) (position : Int) : Nat :=
  if position < 0 then (length + position).toNat else min length position.toNat

/-- The padding that brings a caret below a position of the source: the blank characters before the
position are kept, the others become spaces. -/
def padding (source : String) (position : Int) : String :=
  let cs := source.toList
  String.ofList ((cs.take (charsBefore cs.length position)).map fun c =>
    if Text.isBlank c then c else ' ')

/-- The source, indented. -/
def echo (source : String) : String :=
  "    " ++ source ++ "\n"

/-- What a crash shows of the source: a caret stands below the character the error is about. -/
def excerpt (source : String) : Spot → String
  | .nothing => ""
  | .source => echo source
  | .character position => echo source ++ "    " ++ padding source position ++ "^\n"

/-- The errors that have been logged, each on a line of its own. -/
def backlogText (r : Reporter) : String :=
  if r.backlog.isEmpty then ""
  else "=== Error backlog ===\n" ++ String.join (r.backlog.map fun e => "[ Error ] " ++ e ++ "\n")

/-- The line of the error that stops the work.  It tells the stage, unless there is none or its name
is empty. -/
def fatalLine (r : Reporter) (message : String) : String :=
  let mark := match r.stage with
    | none => ""
    | some stage => if stage.isEmpty then "" else stageMark stage
  "[ Fatal Error ] | " ++ mark ++ message ++ "\n"

/-- **The text of a crash:** the backlog, the error, and what it is about in the source, if there is
a source. -/
def crash (r : Reporter) (d : Diagnostic) : String :=
  let shown := match r.source with
    | none => ""
    | some source => excerpt source d.spot
  r.backlogText ++ r.fatalLine d.message ++ shown

/-- Keeps an error, with the stage it belongs to. -/
def log (r : Reporter) (message : String) : Reporter :=
  { r with backlog := r.backlog ++ [stageMark (r.stage.getD "None") ++ message] }

/-- The reporter in a new stage. -/
def enter (r : Reporter) (stage : Option String) : Reporter :=
  { r with stage := stage }

/-- **Starts a new stage,** and crashes in it if there are errors left from the stages before. -/
def checkpoint (r : Reporter) (stage : Option String) : Reporter × Option String :=
  let r := r.enter stage
  (r, if r.backlog.isEmpty then none else some (r.crash (.plain "error backlog at checkpoint")))

/-- What can happen to a reporter. -/
inductive Event where
  | checkpoint (stage : Option String)
  | log (message : String)
  | crash (d : Diagnostic)
  | source (text : Option String)
  deriving DecidableEq, Repr

/-- The reporter after an event, and the text of the crash if the event is one. -/
def handle (r : Reporter) : Event → Reporter × Option String
  | .checkpoint stage => r.checkpoint stage
  | .log message => (r.log message, none)
  | .crash d => (r, some (r.crash d))
  | .source text => ({ r with source := text }, none)

end Reporter

end ArithAsm
