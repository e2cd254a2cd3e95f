import ArithAsm.CommandLine.Settings

/-!
# Requests and their writings

A request is what somebody wants of a command line.  It is written in groups of arguments, one for
the expression and one for each switch, and the groups may stand in any order.  A switch and its
value can be written in several forms.
-/

namespace ArithAsm.CommandLine

/-- The shortest spelling: the letter, if there is one. -/
def Switch.shortName (s : Switch) : String :=
  s.spellings.headD s.longName

/-- How a switch is written with its value. -/
inductive Form where
  /-- The short spelling, and the value in the next argument. -/
  | shortApart
  /-- The short spelling with the value right behind it. -/
  | shortJoined
  /-- The long spelling, and the value in the next argument. -/
  | longApart
  /-- The long spelling and the value with an equals sign between them. -/
  | longJoined
  deriving DecidableEq, Repr

namespace Form

/-- A switch and its value in the form. -/
def args (s : Switch) (value : String) : Form → List String
  | shortApart => [s.shortName, value]
  | shortJoined => [s.shortName ++ value]
  | longApart => [s.longName, value]
  | longJoined => [s.longName ++ "=" ++ value]

/-- The value can be written in the form.  Right behind a letter there has to be one, and an equals
sign would be lost. -/
def Allows (value : String) : Form → Prop
  | shortJoined => value.toList.head?.any (· ≠ '=') = true
  | _ => True

instance (value : String) : (form : Form) → Decidable (form.Allows value)
  | shortApart => inferInstanceAs (Decidable True)
  | shortJoined => inferInstanceAs (Decidable (_ = true))
  | longApart => inferInstanceAs (Decidable True)
  | longJoined => inferInstanceAs (Decidable True)

end Form

/-- Arguments that belong together. -/
inductive Group where
  | expression (source : String)
  | backend (form : Form) (name : String)
  | output (form : Form) (fileName : String)
  | dump (d : Dump)
  deriving DecidableEq, Repr

/-- The arguments of a group. -/
def Group.args : Group → List String
  | expression source => [source]
  | backend form name => form.args .backend name
  | output form fileName => form.args .output fileName
  | dump d => [(Switch.dump d).longName]

/-- **What is wanted of a command line,** with the forms in which the switches are written. -/
structure Request where
  source : String
  backend : Option (Form × String)
  output : Option (Form × String)
  dump : Option Dump
  deriving DecidableEq, Repr

namespace Request

/-- The groups of a request, in one of their orders. -/
def groups (q : Request) : List Group :=
  [.expression q.source] ++ (q.backend.map fun (form, name) => Group.backend form name).toList
    ++ (q.output.map fun (form, fileName) => Group.output form fileName).toList
    ++ (q.dump.map Group.dump).toList

/-- The settings that are wanted. -/
def settings (q : Request) : Settings where
  expression := q.source
  backend := .text ((q.backend.map (·.2)).getD Registry.defaultName)
  output := q.output.map fun (_, fileName) => .text fileName
  dump := q.dump

end Request

end ArithAsm.CommandLine
