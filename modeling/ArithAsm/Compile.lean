import ArithAsm.Assembly.Registry
import ArithAsm.Grammar.Cursor
import ArithAsm.Token.Scan
import ArithAsm.Tree.Print
import ArithAsm.Tree.Value

/-!
# From source to tree, value and assembly

The stages composed: a source has tokens, tokens have a tree, a tree has a value and, for every
backend, a program.  The first stage that fails decides the `Failure`; in particular a backend is
looked up only once there is a tree to be lowered.
-/

namespace ArithAsm

/-- Why a source was not compiled. -/
inductive Failure where
  | lex (e : LexError)
  | parse (e : ParseError)
  | print (e : PrintError)
  | eval (e : EvalError)
  | lower (e : LowerError)
  /-- No backend is registered under the name. -/
  | unknownBackend (name : String)
  deriving DecidableEq, Repr

/-- The wording of the failure. -/
def Failure.message : Failure → String
  | lex e => e.message
  | parse e => e.message
  | print e => e.message
  | eval e => e.message
  | lower e => e.message
  | unknownBackend name => Text.quoted name

/-- The tree of a source, if no more than `limit` parentheses are open at a time. -/
def readTree (limit : Nat) (source : String) : Except Failure Tree := do
  let tokens ← (tokenize source).mapError .lex
  (parse limit tokens).mapError .parse

/-- The value of a source. -/
def evaluate (limit : Nat) (source : String) : Except Failure Int := do
  let t ← readTree limit source
  t.value.mapError .eval

namespace Registry

/-- The program of a tree, by the backend of a name. -/
def lower (r : Registry) (t : Tree) (name : String) : Except Failure String :=
  match r.get? name with
  | some b => (b.lower t).mapError .lower
  | none => .error (.unknownBackend name)

/-- **The program of a source,** by the backend of a name. -/
def compile (r : Registry) (limit : Nat) (source name : String) : Except Failure String := do
  let t ← readTree limit source
  r.lower t name

end Registry

end ArithAsm
