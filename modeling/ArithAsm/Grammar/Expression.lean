import ArithAsm.Grammar.Rule
import ArithAsm.Tree

/-!
# The grammar of expressions

An expression is a chain of products joined by `+` and `-`, a product is a chain of signed operands
joined by `*` and `/`, a signed operand may have one sign, and an operand is a number or an
expression in parentheses:

    sum     := product (('+' | '-') product)*
    product := signed (('*' | '/') signed)*
    signed  := ('+' | '-')? primary
    primary := number | '(' sum ')'

Both kinds of chain group to the left.  A plus sign leaves no trace in the tree, and a minus sign
subtracts from zero.  Every rule is defined from the rule for what stands in parentheses, so that
the depth of the parentheses is the only thing the recursion `nested` runs on.
-/

namespace ArithAsm

namespace Rule

/-! ### Chains -/

/-- Goes on with a chain after its first operands: as long as one of the symbols is in front, takes
it and one more operand. -/
def chainFrom (symbols : List Char) (operand : Rule Tree) (left : Tree) : Rule Tree
  | [] => ⟨0, .ok left⟩
  | t :: rest =>
    match symbols.find? fun c => t.isReserved (String.singleton c) with
    | none => ⟨0, .ok left⟩
    | some c =>
      match Operator.ofSymbol? c with
      | none => ⟨1, .error (.unknownOperator c)⟩
      | some op =>
        let r := operand rest
        match r.result with
        | .error e => ⟨1 + r.consumed, .error e⟩
        | .ok right =>
          (chainFrom symbols operand (.node op left right t.position)
            (rest.drop r.consumed)).after (1 + r.consumed)
termination_by tokens => tokens.length
decreasing_by exact Nat.lt_succ_of_le (List.drop_sublist _ _).length_le

/-- **A chain:** operands joined by the symbols, grouped to the left. -/
def chain (symbols : List Char) (operand : Rule Tree) : Rule Tree := do
  let left ← operand
  chainFrom symbols operand left

/-! ### The four levels -/

/-- A number, or what stands in parentheses. -/
def primary (inner : Rule Tree) : Rule Tree := do
  if ← accept "(" then
    let t ← inner
    expect ")"
    return t
  else
    let (token, value) ← number
    return .number value token.position

/-- An operand with at most one sign. -/
def signed (inner : Rule Tree) : Rule Tree := do
  let sign ← peek
  if ← accept "+" then
    primary inner
  else if ← accept "-" then
    let t ← primary inner
    return .node .sub (.number 0 sign.position) t sign.position
  else
    primary inner

/-- A chain of multiplications and divisions. -/
def product (inner : Rule Tree) : Rule Tree :=
  chain ['*', '/'] (signed inner)

/-- A chain of additions and subtractions. -/
def sum (inner : Rule Tree) : Rule Tree :=
  chain ['+', '-'] (product inner)

/-- An expression inside a parenthesis, when `depth` parentheses, that one included, may be open at
a time. -/
def nested : Nat → Rule Tree
  | 0 => fail .tooDeep
  | depth + 1 => sum (nested depth)

end Rule

/-- The levels of precedence. -/
inductive Level where
  | sum
  | product
  | signed
  | primary
  deriving DecidableEq, Repr

/-- The rule of a level, when `limit` parentheses may be open at a time. -/
def Level.rule (level : Level) (limit : Nat) : Rule Tree :=
  let inner := Rule.nested limit
  match level with
  | sum => Rule.sum inner
  | product => Rule.product inner
  | signed => Rule.signed inner
  | primary => Rule.primary inner

/-- An expression and nothing after it. -/
def Rule.whole (limit : Nat) : Rule Tree := do
  let t ← Level.sum.rule limit
  unless ← atStop do
    missing "end of input"
  return t

end ArithAsm
