import ArithAsm.Grammar.Call
import ArithAsm.Proofs.Grammar.Nesting

/-!
# The descent ends

`Routine.Ends` says what a descent without a limit does, call by call: every call ends if the calls
it makes do, and only a finite tree of calls gives a reading.  The main statement is
`Routine.ends_iff`: on all tokens, every routine ends, and does what its rule without a limit does.
A rule with a limit does the same where no more parentheses are open (`Routine.rule_eq_unbounded`).
-/

namespace ArithAsm

open Token (ahead deepest)

/-! ### Readings one after the other -/

/-- A reading, and that of a second rule behind it. -/
def Reading.followedBy {α β : Type} (r : Reading α) (second : α → Rule β) (ts : List Token) :
    Reading β :=
  (Rule.andThen (fun _ => r) second) ts

namespace Rule

theorem bind_apply {α β : Type} (rule : Rule α) (second : α → Rule β) (ts : List Token) :
    (rule >>= second) ts = (rule ts).followedBy second ts :=
  rfl

/-- What stands behind an expression in parentheses. -/
def closed (t : Tree) : Rule Tree := do
  expect ")"
  return t

/-- What a minus sign makes of its operand. -/
def negated (sign : Token) (t : Tree) : Rule Tree :=
  return .node .sub (.number 0 sign.position) t sign.position

/-- The rule of a level that reads what is in parentheses by the rule `inner`. -/
def ofLevel (inner : Rule Tree) : Level → Rule Tree
  | .sum => sum inner
  | .product => product inner
  | .signed => signed inner
  | .primary => primary inner

end Rule

namespace Routine

/-- The rule of a routine without a limit. -/
def unbounded : Routine → Rule Tree
  | level l => Rule.ofLevel Rule.unbounded l
  | whole => Rule.wholeUnbounded
  | chain symbols operand => Rule.chain symbols operand.unbounded
  | onward symbols operand left => Rule.chainFrom symbols operand.unbounded left

@[simp] theorem unbounded_sum : (level .sum).unbounded = Rule.unbounded :=
  Rule.unbounded_eq.symm

theorem unbounded_sum_eq_chain :
    (level .sum).unbounded = (chain ['+', '-'] (level .product)).unbounded :=
  rfl

theorem unbounded_product_eq_chain :
    (level .product).unbounded = (chain ['*', '/'] (level .signed)).unbounded :=
  rfl

@[simp] theorem unbounded_signed : (level .signed).unbounded = Rule.signed Rule.unbounded :=
  rfl

@[simp] theorem unbounded_primary : (level .primary).unbounded = Rule.primary Rule.unbounded :=
  rfl

@[simp] theorem unbounded_whole : whole.unbounded = Rule.wholeUnbounded :=
  rfl

/-! ### Calls that end -/

/-- **A call of the routine in front of the tokens ends with the reading.** -/
inductive Ends : Routine → List Token → Reading Tree → Prop
  | whole {ts : List Token} {r : Reading Tree} (h : Ends (.level .sum) ts r) :
      Ends .whole ts (r.followedBy Rule.ended ts)
  | sum {ts : List Token} {r : Reading Tree}
      (h : Ends (.chain ['+', '-'] (.level .product)) ts r) : Ends (.level .sum) ts r
  | product {ts : List Token} {r : Reading Tree}
      (h : Ends (.chain ['*', '/'] (.level .signed)) ts r) : Ends (.level .product) ts r
  | plus {sign : Token} {ts : List Token} {r : Reading Tree} (hs : sign.isReserved "+" = true)
      (h : Ends (.level .primary) ts r) : Ends (.level .signed) (sign :: ts) (r.after 1)
  | minus {sign : Token} {ts : List Token} {r : Reading Tree} (hs : sign.isReserved "-" = true)
      (h : Ends (.level .primary) ts r) :
      Ends (.level .signed) (sign :: ts) ((r.followedBy (Rule.negated sign) ts).after 1)
  | unsigned {ts : List Token} {r : Reading Tree} (hplus : (ahead ts).isReserved "+" = false)
      (hminus : (ahead ts).isReserved "-" = false) (h : Ends (.level .primary) ts r) :
      Ends (.level .signed) ts r
  | parenthesis {opening : Token} {ts : List Token} {r : Reading Tree}
      (ho : opening.isReserved "(" = true) (h : Ends (.level .sum) ts r) :
      Ends (.level .primary) (opening :: ts) ((r.followedBy Rule.closed ts).after 1)
  | number {token : Token} {value : Int} {ts : List Token} (hv : token.kind = .number value) :
      Ends (.level .primary) (token :: ts) ⟨1, .ok (.number value token.position)⟩
  | noOperand {ts : List Token} (ho : (ahead ts).isReserved "(" = false)
      (hv : ∀ value, (ahead ts).kind ≠ .number value) :
      Ends (.level .primary) ts ⟨0, .error (.expected "a number" (ahead ts))⟩
  | chain {symbols : List Char} {operand : Routine} {ts : List Token} {k : Nat} {left : Tree}
      {r : Reading Tree} (h : Ends operand ts ⟨k, .ok left⟩)
      (h' : Ends (.onward symbols operand left) (ts.drop k) r) :
      Ends (.chain symbols operand) ts (r.after k)
  | noChain {symbols : List Char} {operand : Routine} {ts : List Token} {k : Nat} {e : ParseError}
      (h : Ends operand ts ⟨k, .error e⟩) : Ends (.chain symbols operand) ts ⟨k, .error e⟩
  | done {symbols : List Char} {operand : Routine} {left : Tree} {ts : List Token}
      (hc : (ahead ts).symbolAmong? symbols = none) :
      Ends (.onward symbols operand left) ts ⟨0, .ok left⟩
  | noOperator {symbols : List Char} {operand : Routine} {left : Tree} {t : Token} {ts : List Token}
      {c : Char} (hc : t.symbolAmong? symbols = some c) (hop : Operator.ofSymbol? c = none) :
      Ends (.onward symbols operand left) (t :: ts) ⟨1, .error (.unknownOperator c)⟩
  | more {symbols : List Char} {operand : Routine} {left right : Tree} {t : Token} {ts : List Token}
      {c : Char} {op : Operator} {k : Nat} {r : Reading Tree}
      (hc : t.symbolAmong? symbols = some c) (hop : Operator.ofSymbol? c = some op)
      (h : Ends operand ts ⟨k, .ok right⟩)
      (h' : Ends (.onward symbols operand (.node op left right t.position)) (ts.drop k) r) :
      Ends (.onward symbols operand left) (t :: ts) ((r.after k).after 1)
  | noMore {symbols : List Char} {operand : Routine} {left : Tree} {t : Token} {ts : List Token}
      {c : Char} {op : Operator} {k : Nat} {e : ParseError}
      (hc : t.symbolAmong? symbols = some c) (hop : Operator.ofSymbol? c = some op)
      (h : Ends operand ts ⟨k, .error e⟩) :
      Ends (.onward symbols operand left) (t :: ts) ⟨1 + k, .error e⟩

variable {routine operand : Routine} {symbols : List Char} {ts : List Token} {r : Reading Tree}

/-- What ends does what the rule without a limit does. -/
theorem Ends.eq_unbounded (h : routine.Ends ts r) : routine.unbounded ts = r := by
  induction h with
  | whole _ ih =>
    rw [← ih, unbounded_whole, unbounded_sum, Rule.wholeUnbounded, Rule.bind_apply]
  | sum _ ih => rw [unbounded_sum_eq_chain, ih]
  | product _ ih => rw [unbounded_product_eq_chain, ih]
  | plus hs _ ih => rw [← ih, unbounded_signed, Rule.signed_of_plus hs, unbounded_primary]
  | minus hs _ ih =>
    rw [← ih, unbounded_signed, Rule.signed_of_minus hs, unbounded_primary, Rule.bind_apply]
    rfl
  | unsigned hplus hminus _ ih =>
    rw [← ih, unbounded_signed, Rule.signed_of_ahead hplus hminus, unbounded_primary]
  | parenthesis ho _ ih =>
    rw [← ih, unbounded_primary, Rule.primary_of_opening ho, unbounded_sum, Rule.enclosed,
      Rule.bind_apply]
    rfl
  | number hv => exact Rule.primary_of_number hv
  | noOperand ho hv => exact Rule.primary_of_ahead ho hv
  | chain _ _ ih ih' =>
    rw [← ih']
    exact Rule.bind_of_ok ih
  | noChain _ ih => exact Rule.bind_of_error ih
  | done hc => exact Rule.chainFrom_of_none hc
  | noOperator hc hop => exact Rule.chainFrom_of_unknown hc hop _
  | more hc hop _ _ ih ih' =>
    rw [unbounded, Rule.chainFrom_of_some hc hop, Rule.bind_of_ok ih, ← ih']
    rfl
  | noMore hc hop _ ih =>
    rw [unbounded, Rule.chainFrom_of_some hc hop, Rule.bind_of_error ih]
    rfl

/-! ### Every call ends -/

/-- The routine ends in front of the tokens, as its rule without a limit does. -/
def Halts (routine : Routine) (ts : List Token) : Prop :=
  routine.Ends ts (routine.unbounded ts)

/-- **The loop of a chain ends** if its operands do. -/
theorem halts_onward (symbols : List Char) (ts : List Token)
    (h : ∀ us, us.length < ts.length → operand.Halts us) (left : Tree) :
    (onward symbols operand left).Halts ts := by
  rcases Rule.symbolAmong?_cases symbols ts with hnone | ⟨t, rest, c, rfl, -, hc⟩
  · rw [Halts, unbounded, Rule.chainFrom_of_none hnone]
    exact .done hnone
  rcases hop : Operator.ofSymbol? c with _ | op
  · rw [Halts, unbounded, Rule.chainFrom_of_unknown hc hop]
    exact .noOperator hc hop
  · have hoperand := h rest (Nat.lt_succ_self _)
    rw [Halts] at hoperand
    rw [Halts, unbounded, Rule.chainFrom_of_some hc hop]
    rcases hr : operand.unbounded rest with ⟨k, e | right⟩ <;> rw [hr] at hoperand
    · rw [Rule.bind_of_error hr]
      exact .noMore hc hop hoperand
    · rw [Rule.bind_of_ok hr]
      refine .more hc hop hoperand (halts_onward symbols (rest.drop k) (fun us hus => h us ?_) _)
      rw [List.length_drop] at hus
      rw [List.length_cons]
      omega
termination_by ts.length
decreasing_by
  subst ts
  rw [List.length_drop, List.length_cons]
  omega

theorem halts_chain (symbols : List Char) (h : operand.Halts ts)
    (hshorter : ∀ us, us.length < ts.length → operand.Halts us) :
    (chain symbols operand).Halts ts := by
  rw [Halts] at h
  rcases hr : operand.unbounded ts with ⟨k, e | left⟩ <;> rw [hr] at h
  · have hchain : (chain symbols operand).unbounded ts = ⟨k, .error e⟩ := Rule.bind_of_error hr
    rw [Halts, hchain]
    exact .noChain h
  · have hchain : (chain symbols operand).unbounded ts
        = ((onward symbols operand left).unbounded (ts.drop k)).after k := Rule.bind_of_ok hr
    rw [Halts, hchain]
    refine .chain h (halts_onward symbols (ts.drop k) (fun us hus => hshorter us ?_) left)
    rw [List.length_drop] at hus
    omega

section Level

variable (ih : ∀ us, us.length < ts.length → ∀ routine : Routine, routine.Halts us)

include ih

theorem halts_primary : (level .primary).Halts ts := by
  by_cases hopening : (ahead ts).isReserved "(" = true
  · obtain ⟨opening, rest, rfl, ho⟩ := Token.exists_of_isReserved hopening
    have hinner := ih rest (Nat.lt_succ_self _) (.level .sum)
    rw [Halts, unbounded_sum] at hinner
    rw [Halts, unbounded_primary, Rule.primary_of_opening ho, Rule.enclosed, Rule.bind_apply]
    exact .parenthesis ho hinner
  have hopening := Bool.eq_false_iff.mpr hopening
  by_cases hnumber : ∃ v, (ahead ts).kind = .number v
  · obtain ⟨v, hahead⟩ := hnumber
    obtain ⟨t, rest, rfl, hv⟩ := Token.exists_of_number hahead
    rw [Halts, unbounded_primary, Rule.primary_of_number hv]
    exact .number hv
  · have hnone := fun v hv => hnumber ⟨v, hv⟩
    rw [Halts, unbounded_primary, Rule.primary_of_ahead hopening hnone]
    exact .noOperand hopening hnone

theorem halts_signed : (level .signed).Halts ts := by
  by_cases hplus : (ahead ts).isReserved "+" = true
  · obtain ⟨sign, rest, rfl, hs⟩ := Token.exists_of_isReserved hplus
    rw [Halts, unbounded_signed, Rule.signed_of_plus hs]
    exact .plus hs (ih rest (Nat.lt_succ_self _) (.level .primary))
  by_cases hminus : (ahead ts).isReserved "-" = true
  · obtain ⟨sign, rest, rfl, hs⟩ := Token.exists_of_isReserved hminus
    rw [Halts, unbounded_signed, Rule.signed_of_minus hs, Rule.bind_apply]
    exact .minus hs (ih rest (Nat.lt_succ_self _) (.level .primary))
  · have hplus := Bool.eq_false_iff.mpr hplus
    have hminus := Bool.eq_false_iff.mpr hminus
    rw [Halts, unbounded_signed, Rule.signed_of_ahead hplus hminus]
    exact .unsigned hplus hminus (halts_primary ih)

theorem halts_product : (level .product).Halts ts :=
  .product (halts_chain ['*', '/'] (halts_signed ih) fun us hus => ih us hus _)

theorem halts_sum : (level .sum).Halts ts :=
  .sum (halts_chain ['+', '-'] (halts_product ih) fun us hus => ih us hus _)

theorem halts_whole : whole.Halts ts := by
  have hsum := halts_sum ih
  rw [Halts, unbounded_sum] at hsum
  rw [Halts, unbounded_whole, Rule.wholeUnbounded, Rule.bind_apply]
  exact .whole hsum

end Level

/-- **Every routine ends,** by induction on the number of tokens: a parenthesis, a sign and a symbol
of a chain are taken before the next call is made. -/
theorem halts (ts : List Token) (routine : Routine) : routine.Halts ts := by
  have ih : ∀ us, us.length < ts.length → ∀ routine : Routine, routine.Halts us :=
    fun us _ routine => halts us routine
  induction routine with
  | level l =>
    cases l with
    | sum => exact halts_sum ih
    | product => exact halts_product ih
    | signed => exact halts_signed ih
    | primary => exact halts_primary ih
  | whole => exact halts_whole ih
  | chain symbols operand h => exact halts_chain symbols h fun us hus => ih us hus operand
  | onward symbols operand left =>
    exact halts_onward symbols ts (fun us hus => ih us hus operand) left
termination_by ts.length

/-- **A call ends with the reading of the rule without a limit,** and with no other. -/
theorem ends_iff : routine.Ends ts r ↔ routine.unbounded ts = r := by
  refine ⟨Ends.eq_unbounded, ?_⟩
  rintro rfl
  exact halts ts routine

/-! ### Rules with a limit -/

variable {limit : Nat}

/-- **A limit that is not exceeded has no influence on any routine.** -/
theorem rule_eq_unbounded (hdepth : deepest 0 ts ≤ limit) :
    routine.rule limit ts = routine.unbounded ts := by
  induction routine generalizing ts with
  | level l =>
    have hinner := Rule.limited_nested limit
    cases l with
    | sum =>
      rw [unbounded_sum, Rule.unbounded_eq]
      exact (Rule.Limited.sum hinner ts).eq_of_deepest_lt (Nat.lt_succ_of_le hdepth)
    | product => exact (Rule.Limited.product hinner ts).eq_of_deepest_lt (Nat.lt_succ_of_le hdepth)
    | signed => exact (Rule.Limited.signed hinner ts).eq_of_deepest_lt (Nat.lt_succ_of_le hdepth)
    | primary => exact (Rule.Limited.primary hinner ts).eq_of_deepest_lt (Nat.lt_succ_of_le hdepth)
  | whole => exact (Rule.limited_whole limit ts).eq_of_deepest_lt (Nat.lt_succ_of_le hdepth)
  | chain symbols operand ih =>
    exact Rule.chain_congr symbols fun k => ih (Nat.le_trans (Token.deepest_drop_le ts k) hdepth)
  | onward symbols operand left ih =>
    exact Rule.chainFrom_congr symbols
      (fun k => ih (Nat.le_trans (Token.deepest_drop_le ts k) hdepth)) left

/-! ### Errors -/

/-- The symbols that a routine takes for operators, besides those of the grammar. -/
def operatorSymbols : Routine → List Char
  | level _ => []
  | whole => []
  | chain symbols operand => symbols ++ operand.operatorSymbols
  | onward symbols operand _ => symbols ++ operand.operatorSymbols

/-- The error is about the token that stands at the end of the reading, or about one of the symbols
that writes no operator. -/
def FailsThere {α : Type} (symbols : List Char) (ts : List Token) (r : Reading α) : Prop :=
  ∀ e, r.result = .error e → (∃ what, e = .expected what (ahead (ts.drop r.consumed))) ∨
    ∃ symbol ∈ symbols, e = .unknownOperator symbol ∧ Operator.ofSymbol? symbol = none

theorem FailsThere.after {k : Nat} (h : FailsThere symbols (ts.drop k) r) :
    FailsThere symbols ts (r.after k) := by
  intro e he
  have hthere := h e he
  rwa [List.drop_drop] at hthere

theorem FailsThere.cons (h : FailsThere symbols ts r) (t : Token) :
    FailsThere symbols (t :: ts) (r.after 1) :=
  FailsThere.after h

theorem FailsThere.mono {symbols' : List Char} (h : FailsThere symbols ts r)
    (hsymbols : symbols ⊆ symbols') : FailsThere symbols' ts r := by
  intro e he
  refine (h e he).imp_right ?_
  rintro ⟨symbol, hmem, hsymbol⟩
  exact ⟨symbol, hsymbols hmem, hsymbol⟩

theorem FailsThere.of_operators (ops : List Operator)
    (h : FailsThere (ops.map Operator.symbol) ts r) : FailsThere [] ts r := by
  intro e he
  rcases h e he with hexpected | ⟨symbol, hmem, -, hnone⟩
  · exact Or.inl hexpected
  · obtain ⟨op, -, rfl⟩ := List.mem_map.mp hmem
    rw [Operator.ofSymbol?_symbol] at hnone
    cases hnone

theorem failsThere_ok {α : Type} (symbols : List Char) (ts : List Token) (k : Nat) (x : α) :
    FailsThere symbols ts ⟨k, .ok x⟩ :=
  nofun

theorem failsThere_expected {α : Type} (symbols : List Char) (ts : List Token) (what : String) :
    FailsThere symbols ts (⟨0, .error (.expected what (ahead ts))⟩ : Reading α) := by
  rintro e ⟨⟩
  exact Or.inl ⟨what, rfl⟩

theorem FailsThere.followedBy {second : Tree → Rule Tree} (h : FailsThere symbols ts r)
    (hsecond : ∀ t us, FailsThere symbols us (second t us)) :
    FailsThere symbols ts (r.followedBy second ts) := by
  obtain ⟨k, e | t⟩ := r
  · exact h
  · exact FailsThere.after (hsecond t (ts.drop k))

theorem failsThere_closed (t : Tree) (ts : List Token) :
    FailsThere symbols ts (Rule.closed t ts) := by
  rcases Rule.expect_cases ")" ts with h | h
  · rw [Rule.closed, Rule.bind_of_ok h]
    exact failsThere_ok symbols ts 1 t
  · rw [Rule.closed, Rule.bind_of_error h]
    exact failsThere_expected symbols ts _

theorem failsThere_ended (t : Tree) (ts : List Token) :
    FailsThere symbols ts (Rule.ended t ts) := by
  rw [Rule.ended_apply]
  split
  · exact failsThere_ok symbols ts 0 t
  · exact failsThere_expected symbols ts _

/-- **A routine fails at the token where it stops.** -/
theorem Ends.failsThere (h : routine.Ends ts r) : FailsThere routine.operatorSymbols ts r := by
  induction h with
  | whole _ ih => exact ih.followedBy failsThere_ended
  | sum _ ih => exact FailsThere.of_operators [.add, .sub] ih
  | product _ ih => exact FailsThere.of_operators [.mul, .div] ih
  | @plus sign _ _ _ _ ih => exact ih.cons sign
  | @minus sign _ _ _ _ ih => exact (ih.followedBy fun t us => failsThere_ok _ us 0 _).cons sign
  | unsigned _ _ _ ih => exact ih
  | @parenthesis opening _ _ _ _ ih => exact (ih.followedBy failsThere_closed).cons opening
  | number _ => exact failsThere_ok _ _ _ _
  | noOperand _ _ => exact failsThere_expected _ _ _
  | chain _ _ _ ih => exact ih.after
  | noChain _ ih => exact ih.mono (List.subset_append_right _ _)
  | done _ => exact failsThere_ok _ _ _ _
  | noOperator hc hop =>
    rintro e ⟨⟩
    exact Or.inr ⟨_, List.mem_append_left _ (Token.mem_of_symbolAmong? hc), rfl, hop⟩
  | @more _ _ _ _ t _ _ _ _ _ _ _ _ _ _ ih => exact ih.after.cons t
  | @noMore _ _ _ t _ _ _ _ _ _ _ _ ih => exact (ih.mono (List.subset_append_right _ _)).cons t

end Routine

end ArithAsm
