import ArithAsm.Grammar.Cursor

/-!
# Calls at a cursor

What can be asked at a cursor, and the cursor a list of such calls leads to.  A call that fails
leaves the cursor where its rule has stopped, and the next call goes on from there.  Trees are read
by the levels of the grammar, by the rule for a whole expression, and by chains that join any of
these with any symbols.
-/

namespace ArithAsm

/-- A way to read a tree. -/
inductive Routine where
  | level (level : Level)
  /-- An expression and nothing after it. -/
  | whole
  /-- Operands joined by symbols. -/
  | chain (symbols : List Char) (operand : Routine)
  /-- The rest of a chain, behind its first operands. -/
  | onward (symbols : List Char) (operand : Routine) (left : Tree)
  deriving DecidableEq, Repr

/-- The rule of a routine, when `limit` parentheses may be open at a time. -/
def Routine.rule (limit : Nat) : Routine → Rule Tree
  | level l => l.rule limit
  | whole => Rule.whole limit
  | chain symbols operand => Rule.chain symbols (operand.rule limit)
  | onward symbols operand left => Rule.chainFrom symbols (operand.rule limit) left

/-- What can be asked at a cursor. -/
inductive Call where
  | accept (text : String)
  | expect (text : String)
  | number
  | atStop
  /-- How the token in front is called in an error. -/
  | description
  /-- The error of wanting something else than the token in front. -/
  | complaint (what : String)
  | read (routine : Routine)
  deriving DecidableEq, Repr

namespace Call

/-- What a call is answered with. -/
def Answer : Call → Type
  | accept _ => Bool
  | expect _ => PUnit
  | number => Token × Int
  | atStop => Bool
  | description => String
  | complaint _ => ParseError
  | read _ => Tree

/-- The rule of a call. -/
def rule (limit : Nat) : (call : Call) → Rule call.Answer
  | accept text => Rule.accept text
  | expect text => Rule.expect text
  | number => Rule.number
  | atStop => Rule.atStop
  | description => return (← Rule.peek).description
  | complaint what => return .expected what (← Rule.peek)
  | read routine => routine.rule limit

/-- A token that was asked for is not the one in front. -/
def IsRefused : (call : Call) → Except ParseError call.Answer → Prop
  | accept _, answer => answer = .ok false
  | expect _, answer => ∃ e, answer = .error e
  | number, answer => ∃ e, answer = .error e
  | _, _ => False

end Call

namespace Cursor

/-- The answer to a call, and the cursor behind it. -/
def ask (limit : Nat) (call : Call) (c : Cursor) : Except ParseError call.Answer × Cursor :=
  c.run (call.rule limit)

/-- **The cursor behind a list of calls,** whether they succeed or fail. -/
def after (limit : Nat) (calls : List Call) (c : Cursor) : Cursor :=
  calls.foldl (fun c call => (c.ask limit call).2) c

end Cursor

end ArithAsm
