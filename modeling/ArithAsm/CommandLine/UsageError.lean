import ArithAsm.CommandLine.Switch
import ArithAsm.Text.Quoted

/-!
# Errors of usage

The ways in which the arguments of a command line can be wrong, and their wording.
-/

namespace ArithAsm.CommandLine

/-- The machine the program runs on. -/
structure Host where
  system : String
  machine : String
  deriving DecidableEq, Repr

/-- Why a command line is refused. -/
inductive UsageError where
  /-- The beginning of a long spelling that fits several switches. -/
  | ambiguous (argument : String) (candidates : List Switch)
  /-- A switch without the value it needs. -/
  | valueMissing (s : Switch)
  /-- A value for a switch that takes none. -/
  | valueIgnored (s : Switch) (value : String)
  /-- A backend that is not among the choices. -/
  | invalidChoice (value : String) (choices : List String)
  /-- A switch that an earlier one excludes. -/
  | conflict (s earlier : Switch)
  | expressionMissing
  /-- Arguments that were left over. -/
  | unrecognized (arguments : List String)
  /-- There is no backend for the host. -/
  | hostUnsupported (host : Host)
  deriving DecidableEq, Repr

/-- The wording of the error. -/
def UsageError.message : UsageError → String
  | ambiguous argument candidates =>
    "ambiguous option: " ++ argument ++ " could match "
      ++ ", ".intercalate (candidates.map (·.longName))
  | valueMissing s => "argument " ++ s.title ++ ": expected one argument"
  | valueIgnored s value =>
    "argument " ++ s.title ++ ": ignored explicit argument " ++ Text.quoted value
  | invalidChoice value choices =>
    "argument " ++ Switch.backend.title ++ ": invalid choice: " ++ Text.quoted value
      ++ " (choose from " ++ ", ".intercalate (choices.map Text.quoted) ++ ")"
  | conflict s earlier =>
    "argument " ++ s.title ++ ": not allowed with argument " ++ earlier.title
  | expressionMissing => "the following arguments are required: expression"
  | unrecognized arguments => "unrecognized arguments: " ++ " ".intercalate arguments
  | hostUnsupported host => "no backend for " ++ host.system ++ " " ++ host.machine

end ArithAsm.CommandLine
