import ArithAsm.Grammar.Expression

/-!
# A cursor in a list of tokens

A cursor stands in a list of tokens that ends with the end of the input.  Running a rule moves it
over the tokens the rule took, whether the rule succeeds or fails; nothing else moves it.  `parse`
runs the rule for a whole expression from the first token, with a fixed limit to the depth of the
parentheses.
-/

namespace ArithAsm

/-- A place in a list of tokens. -/
structure Cursor where
  tokens : List Token
  index : Nat
  deriving DecidableEq, Repr

namespace Cursor

/-- The cursor before the first of the tokens, which have to end with the end of the input. -/
def ofTokens (tokens : List Token) : Except ParseError Cursor :=
  match tokens.getLast? with
  | some t => if t.isStop then .ok ⟨tokens, 0⟩ else .error .unterminated
  | none => .error .unterminated

/-- Runs a rule from the cursor. -/
def run {α : Type} (rule : Rule α) (c : Cursor) : Except ParseError α × Cursor :=
  let r := rule (c.tokens.drop c.index)
  (r.result, { c with index := c.index + r.consumed })

end Cursor

/-- **The tree of a list of tokens,** if no more than `limit` parentheses are open at a time. -/
def parse (limit : Nat) (tokens : List Token) : Except ParseError Tree := do
  let start ← Cursor.ofTokens tokens
  (start.run (Rule.whole limit)).1

/-- The limit that the program is run with, in place of the stack of one machine. -/
def nestingLimit : Nat :=
  200

end ArithAsm
