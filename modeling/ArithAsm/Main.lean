import ArithAsm.Run

/-!
# The program

Carries out the plan for the arguments it is given: prints, writes the one file a plan may ask for,
and exits with the status of the outcome.
-/

namespace ArithAsm

/-- The first line of a file, or nothing if it cannot be read. -/
def firstLine (fileName : String) : IO String :=
  try
    return String.ofList ((← IO.FS.readFile fileName).toList.takeWhile (· ≠ '\n'))
  catch _ => return ""

/-- The machine the program runs on, as its kernel tells. -/
def readHost : IO CommandLine.Host :=
  return ⟨← firstLine "/proc/sys/kernel/ostype", ← firstLine "/proc/sys/kernel/arch"⟩

/-- Why a file could not be written, with what is shown of the file. -/
def writeReason (subject : String) (e : IO.Error) : String :=
  let reason (number : UInt32) (details : String) : String :=
    "[Errno " ++ toString number ++ "] " ++ details ++ subject
  match e with
  | .noFileOrDirectory _ number details => reason number details
  | .inappropriateType _ number details => reason number details
  | .invalidArgument _ number details => reason number details
  | .permissionDenied _ number details => reason number details
  | e => toString e

/-- Writes to an open file; the answer is the reason if it could not be written. -/
def tryPut (file : IO.FS.Handle) (contents : String) : IO (Option String) :=
  try
    file.putStr contents
    file.flush
    return none
  catch e => return some (writeReason "" e)

/-- Opens a file and writes it; the answer is the reason if one of the two could not be done. -/
def tryWrite (fileName contents : String) : IO (Option String) := do
  let opened ← (IO.FS.Handle.mk fileName .write).toBaseIO
  match opened with
  | .ok file => tryPut file contents
  | .error e => return some (writeReason (": " ++ Text.quoted fileName) e)

/-- Prints what an outcome has to print. -/
def showOutcome (o : Outcome) : IO UInt32 := do
  IO.print o.stdout
  IO.eprint o.stderr
  return o.exit.toUInt32

/-- Carries out a plan. -/
def perform : Plan → IO UInt32
  | .finish o => showOutcome o
  | .abort f => do
    IO.eprintln f.message
    return 1
  | .write fileName contents resume => do
    showOutcome (resume (← tryWrite fileName contents))

end ArithAsm

def main (args : List String) : IO UInt32 := do
  let path := (← IO.appPath).toString
  let host ← ArithAsm.readHost
  ArithAsm.perform (ArithAsm.Plan.ofArguments .builtIn ArithAsm.nestingLimit host path args)
