import ArithAsm.Text.Quoted
import ArithAsm.Token

/-!
# Rules of a grammar

A rule reads some of the tokens in front of it and gives a result or an error.  A `Reading` tells
how many tokens were taken, also when the rule fails: they stay taken.  Rules are put together one
after the other, the second where the first has stopped, and form a lawful monad.

The elementary rules look at one token.  At the end of the list of tokens they behave as at the end
of the input.
-/

namespace ArithAsm

/-- Why some tokens are no expression. -/
inductive ParseError where
  /-- Another token was needed in place of `found`. -/
  | expected (what : String) (found : Token)
  /-- More parentheses are open than can be kept track of.  The error is given no token, for the one
  at which this is noticed depends on how much stack the machine has left. -/
  | tooDeep
  /-- A character was read as an operator that writes none. -/
  | unknownOperator (symbol : Char)
  /-- The tokens do not end with the end of the input. -/
  | unterminated
  deriving DecidableEq, Repr

namespace ParseError

/-- The wording of the error. -/
def message : ParseError → String
  | expected what found => "expected " ++ what ++ ", found " ++ found.description
  | tooDeep => "expression nested too deeply"
  | unknownOperator symbol => Text.quoted (String.singleton symbol)
  | unterminated => ""

/-- The character of the source the error points at, if it points at one. -/
def position? : ParseError → Option Int
  | expected _ found => some found.position
  | _ => none

end ParseError

/-- What a rule has done: the number of tokens it took, and its result. -/
structure Reading (α : Type) where
  consumed : Nat
  result : Except ParseError α

/-- A rule, as what it does with the tokens in front of it. -/
def Rule (α : Type) :=
  List Token → Reading α

/-- The same reading with some tokens taken before it. -/
def Reading.after {α : Type} (r : Reading α) (taken : Nat) : Reading α :=
  ⟨taken + r.consumed, r.result⟩

namespace Rule

variable {α β : Type}

/-- Takes nothing and succeeds. -/
def succeed (x : α) : Rule α :=
  fun _ => ⟨0, .ok x⟩

/-- Takes nothing and fails. -/
def fail (e : ParseError) : Rule α :=
  fun _ => ⟨0, .error e⟩

/-- One rule after the other. -/
def andThen (first : Rule α) (second : α → Rule β) : Rule β :=
  fun tokens =>
    let r := first tokens
    match r.result with
    | .error e => ⟨r.consumed, .error e⟩
    | .ok x => (second x (tokens.drop r.consumed)).after r.consumed

instance : Monad Rule where
  pure := succeed
  bind := andThen

theorem map_id (rule : Rule α) : id <$> rule = rule := by
  funext tokens
  change (match (rule tokens).result with
    | .error e => (⟨(rule tokens).consumed, .error e⟩ : Reading _)
    | .ok x => ⟨(rule tokens).consumed + 0, .ok x⟩) = rule tokens
  rcases rule tokens with ⟨consumed, _ | x⟩ <;> rfl

theorem succeed_andThen (x : α) (second : α → Rule β) : (succeed x).andThen second = second x := by
  funext tokens
  simp [andThen, succeed, Reading.after]

theorem andThen_assoc {γ : Type} (rule : Rule α) (second : α → Rule β) (third : β → Rule γ) :
    (rule.andThen second).andThen third = rule.andThen fun x => (second x).andThen third := by
  funext tokens
  unfold andThen
  rcases rule tokens with ⟨consumed, _ | x⟩
  · rfl
  · simp only [Reading.after]
    rcases second x (tokens.drop consumed) with ⟨consumed', _ | y⟩
    · rfl
    · simp [List.drop_drop, Nat.add_assoc]

instance : LawfulMonad Rule :=
  LawfulMonad.mk' Rule map_id succeed_andThen andThen_assoc

/-! ### Rules for one token -/

/-- The token in front; nothing is taken. -/
def peek : Rule Token :=
  fun tokens => ⟨0, .ok (tokens.headD (.stop 0))⟩

/-- Takes the reserved token with the given text if it is in front, and says whether it was. -/
def accept (text : String) : Rule Bool
  | t :: _ => if t.isReserved text then ⟨1, .ok true⟩ else ⟨0, .ok false⟩
  | [] => ⟨0, .ok false⟩

/-- Fails, for want of `what`, at the token in front. -/
def missing (what : String) : Rule α := do
  fail (.expected what (← peek))

/-- Takes the reserved token with the given text. -/
def expect (text : String) : Rule PUnit := do
  unless ← accept text do
    missing ("'" ++ text ++ "'")

/-- Takes a number, given with its value. -/
def number : Rule (Token × Int)
  | t :: rest =>
    match t.kind with
    | .number value => ⟨1, .ok (t, value)⟩
    | _ => missing "a number" (t :: rest)
  | [] => missing "a number" []

/-- Says whether the input ends here. -/
def atStop : Rule Bool := do
  return (← peek).isStop

end Rule

end ArithAsm
