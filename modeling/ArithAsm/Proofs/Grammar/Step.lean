import ArithAsm.Grammar.Cursor

/-!
# What the rules do with the tokens in front

Every rule of the grammar decides by the token in front of it.  The lemmas of this module say what
it does with each kind of token, so that no proof about a rule has to open it.  The two kinds of
chain differ in their operators only, and `NoneAhead ops ts` says that none of them is in front.
-/

namespace ArithAsm

/-- The token in front, which is the end of the input where there are no more tokens. -/
def Token.ahead (ts : List Token) : Token :=
  ts.headD (.stop 0)

/-- None of the operators is in front. -/
def NoneAhead (ops : List Operator) (ts : List Token) : Prop :=
  ∀ op ∈ ops, (Token.ahead ts).isReserved (String.singleton op.symbol) = false

theorem Token.isReserved_inj {t : Token} {text text' : String} (h : t.isReserved text = true)
    (h' : t.isReserved text' = true) : text = text' :=
  (isReserved_iff.mp h).2.symm.trans (isReserved_iff.mp h').2

theorem Token.isReserved_eq_false {t : Token} {text text' : String} (h : t.isReserved text = true)
    (hne : text ≠ text') : t.isReserved text' = false :=
  Bool.eq_false_iff.mpr fun h' => hne (isReserved_inj h h')

theorem Token.exists_of_ahead {ts : List Token} (h : (ahead ts).isStop = false) :
    ∃ t rest, ts = t :: rest ∧ ahead ts = t := by
  cases ts with
  | nil => cases h
  | cons t rest => exact ⟨t, rest, rfl, rfl⟩

theorem Token.exists_of_isReserved {ts : List Token} {text : String}
    (h : (ahead ts).isReserved text = true) :
    ∃ t rest, ts = t :: rest ∧ t.isReserved text = true := by
  obtain ⟨t, rest, rfl, ht⟩ := exists_of_ahead (isStop_of_isReserved h)
  exact ⟨t, rest, rfl, ht ▸ h⟩

theorem Token.exists_of_number {ts : List Token} {v : Int} (h : (ahead ts).kind = .number v) :
    ∃ t rest, ts = t :: rest ∧ t.kind = .number v := by
  have hstop : (ahead ts).isStop = false := by simp [isStop, h]
  obtain ⟨t, rest, rfl, ht⟩ := exists_of_ahead hstop
  exact ⟨t, rest, rfl, ht ▸ h⟩

/-- The first one of the symbols that the token writes, if it writes one. -/
def Token.symbolAmong? (symbols : List Char) (t : Token) : Option Char :=
  symbols.find? fun c => t.isReserved (String.singleton c)

theorem Token.isReserved_of_symbolAmong? {symbols : List Char} {t : Token} {c : Char}
    (h : t.symbolAmong? symbols = some c) : t.isReserved (String.singleton c) = true := by
  unfold symbolAmong? at h
  simpa using List.find?_some h

theorem Token.mem_of_symbolAmong? {symbols : List Char} {t : Token} {c : Char}
    (h : t.symbolAmong? symbols = some c) : c ∈ symbols :=
  List.mem_of_find?_eq_some h

theorem Operator.eq_of_isReserved {op op' : Operator} {t : Token}
    (h : t.isReserved (String.singleton op.symbol) = true)
    (h' : t.isReserved (String.singleton op'.symbol) = true) : op = op' := by
  have htext := congrArg String.toList (Token.isReserved_inj h h')
  simp only [String.toList_singleton, List.cons.injEq, and_true] at htext
  exact symbol_inj htext

theorem noneAhead_of_isReserved {token : Token} {text : String} {rest : List Token}
    (h : token.isReserved text = true) {ops : List Operator}
    (hops : ∀ op ∈ ops, text ≠ String.singleton op.symbol) : NoneAhead ops (token :: rest) :=
  fun op hop => Token.isReserved_eq_false h (hops op hop)

theorem noneAhead_of_isStop {token : Token} {rest : List Token} (h : token.isStop = true)
    (ops : List Operator) : NoneAhead ops (token :: rest) := by
  intro op _
  simp only [Token.isStop, decide_eq_true_eq] at h
  simp [Token.ahead, Token.isReserved, h]

namespace Rule

variable {α β : Type}

/-! ### One rule after the other -/

theorem bind_of_ok {rule : Rule α} {second : α → Rule β} {ts : List Token} {k : Nat} {x : α}
    (h : rule ts = ⟨k, .ok x⟩) : (rule >>= second) ts = (second x (ts.drop k)).after k := by
  change (rule.andThen second) ts = _
  simp only [andThen, h]

theorem bind_of_error {rule : Rule α} {second : α → Rule β} {ts : List Token} {k : Nat}
    {e : ParseError} (h : rule ts = ⟨k, .error e⟩) : (rule >>= second) ts = ⟨k, .error e⟩ := by
  change (rule.andThen second) ts = _
  simp only [andThen, h]

theorem eq_of_result {rule : Rule α} {ts : List Token} {result : Except ParseError α}
    (h : (rule ts).result = result) : rule ts = ⟨(rule ts).consumed, result⟩ := by
  rw [← h]

@[simp] theorem pure_apply (x : α) (ts : List Token) : (pure x : Rule α) ts = ⟨0, .ok x⟩ :=
  rfl

theorem missing_apply (what : String) (ts : List Token) :
    (missing what : Rule α) ts = ⟨0, .error (.expected what (Token.ahead ts))⟩ :=
  rfl

/-! ### One token -/

variable {t : Token} {text : String} {ts : List Token}

theorem accept_of_isReserved (h : t.isReserved text = true) :
    accept text (t :: ts) = ⟨1, .ok true⟩ := by
  rw [accept, if_pos h]

theorem accept_of_ahead (h : (Token.ahead ts).isReserved text = false) :
    accept text ts = ⟨0, .ok false⟩ := by
  cases ts with
  | nil => rfl
  | cons t ts => exact if_neg (Bool.eq_false_iff.mp h)

theorem expect_of_isReserved (h : t.isReserved text = true) :
    expect text (t :: ts) = ⟨1, .ok ⟨⟩⟩ := by
  rw [expect, bind_of_ok (accept_of_isReserved h)]
  rfl

theorem expect_of_ahead (h : (Token.ahead ts).isReserved text = false) :
    expect text ts = ⟨0, .error (.expected ("'" ++ text ++ "'") (Token.ahead ts))⟩ := by
  rw [expect, bind_of_ok (accept_of_ahead h)]
  rfl

theorem number_of_kind {v : Int} (h : t.kind = .number v) : number (t :: ts) = ⟨1, .ok (t, v)⟩ := by
  rw [number, h]

theorem number_of_ahead (h : ∀ v, (Token.ahead ts).kind ≠ .number v) :
    number ts = ⟨0, .error (.expected "a number" (Token.ahead ts))⟩ := by
  cases ts with
  | nil => rfl
  | cons t ts =>
    rw [number]
    split
    · exact absurd ‹_› (h _)
    · rfl

/-! ### How the rules for one token end -/

theorem accept_cases (text : String) (ts : List Token) :
    accept text ts = ⟨1, .ok true⟩ ∨ accept text ts = ⟨0, .ok false⟩ := by
  cases hahead : (Token.ahead ts).isReserved text with
  | false => exact Or.inr (accept_of_ahead hahead)
  | true =>
    obtain ⟨t, rest, rfl, ht⟩ := Token.exists_of_isReserved hahead
    exact Or.inl (accept_of_isReserved ht)

theorem expect_cases (text : String) (ts : List Token) : expect text ts = ⟨1, .ok ⟨⟩⟩ ∨
    expect text ts = ⟨0, .error (.expected ("'" ++ text ++ "'") (Token.ahead ts))⟩ := by
  cases hahead : (Token.ahead ts).isReserved text with
  | false => exact Or.inr (expect_of_ahead hahead)
  | true =>
    obtain ⟨t, rest, rfl, ht⟩ := Token.exists_of_isReserved hahead
    exact Or.inl (expect_of_isReserved ht)

theorem number_cases (ts : List Token) : (∃ x, number ts = ⟨1, .ok x⟩) ∨
    number ts = ⟨0, .error (.expected "a number" (Token.ahead ts))⟩ := by
  by_cases hnumber : ∃ v, (Token.ahead ts).kind = .number v
  · obtain ⟨v, hahead⟩ := hnumber
    obtain ⟨t, rest, rfl, hv⟩ := Token.exists_of_number hahead
    exact Or.inl ⟨(t, v), number_of_kind hv⟩
  · exact Or.inr (number_of_ahead fun v hv => hnumber ⟨v, hv⟩)

theorem atStop_apply (ts : List Token) : atStop ts = ⟨0, .ok (Token.ahead ts).isStop⟩ :=
  rfl

/-! ### Operands -/

variable {inner : Rule Tree}

/-- What stands behind an opening parenthesis: an expression and the closing parenthesis. -/
def enclosed (inner : Rule Tree) : Rule Tree := do
  let t ← inner
  expect ")"
  return t

theorem enclosed_of_error {k : Nat} {e : ParseError} (h : inner ts = ⟨k, .error e⟩) :
    enclosed inner ts = ⟨k, .error e⟩ :=
  bind_of_error h

theorem enclosed_of_closing {k : Nat} {x : Tree} {rest : List Token} (h : inner ts = ⟨k, .ok x⟩)
    (hrest : ts.drop k = t :: rest) (ht : t.isReserved ")" = true) :
    enclosed inner ts = ⟨k + 1, .ok x⟩ := by
  rw [enclosed, bind_of_ok h, hrest, bind_of_ok (expect_of_isReserved ht)]
  rfl

theorem enclosed_of_ahead {k : Nat} {x : Tree} (h : inner ts = ⟨k, .ok x⟩)
    (ht : (Token.ahead (ts.drop k)).isReserved ")" = false) :
    enclosed inner ts = ⟨k, .error (.expected "')'" (Token.ahead (ts.drop k)))⟩ := by
  rw [enclosed, bind_of_ok h, bind_of_error (expect_of_ahead ht)]
  rfl

theorem primary_of_opening (h : t.isReserved "(" = true) :
    primary inner (t :: ts) = (enclosed inner ts).after 1 := by
  rw [primary, bind_of_ok (accept_of_isReserved h)]
  rfl

theorem primary_of_enclosed {k : Nat} {result : Except ParseError Tree}
    (ht : t.isReserved "(" = true) (h : enclosed inner ts = ⟨k, result⟩) :
    primary inner (t :: ts) = ⟨1 + k, result⟩ := by
  rw [primary_of_opening ht, h]
  rfl

theorem primary_of_number {v : Int} (h : t.kind = .number v) :
    primary inner (t :: ts) = ⟨1, .ok (.number v t.position)⟩ := by
  have hopening : (Token.ahead (t :: ts)).isReserved "(" = false := by
    simp [Token.ahead, Token.isReserved, h]
  rw [primary, bind_of_ok (accept_of_ahead hopening)]
  simp only [Bool.false_eq_true, if_false, List.drop_zero]
  rw [bind_of_ok (number_of_kind h)]
  rfl

theorem primary_of_ahead (hopening : (Token.ahead ts).isReserved "(" = false)
    (hnumber : ∀ v, (Token.ahead ts).kind ≠ .number v) :
    primary inner ts = ⟨0, .error (.expected "a number" (Token.ahead ts))⟩ := by
  rw [primary, bind_of_ok (accept_of_ahead hopening)]
  simp only [Bool.false_eq_true, if_false, List.drop_zero]
  rw [bind_of_error (number_of_ahead hnumber)]
  rfl

theorem signed_of_plus (h : t.isReserved "+" = true) :
    signed inner (t :: ts) = (primary inner ts).after 1 := by
  rw [signed, bind_of_ok (show peek (t :: ts) = ⟨0, .ok t⟩ from rfl), List.drop_zero,
    bind_of_ok (accept_of_isReserved h)]
  simp [Reading.after]

theorem signed_of_minus (h : t.isReserved "-" = true) :
    signed inner (t :: ts) = ((do
      let u ← primary inner
      return .node .sub (.number 0 t.position) u t.position : Rule Tree) ts).after 1 := by
  have hplus : (Token.ahead (t :: ts)).isReserved "+" = false :=
    Token.isReserved_eq_false h (by decide)
  rw [signed, bind_of_ok (show peek (t :: ts) = ⟨0, .ok t⟩ from rfl), List.drop_zero,
    bind_of_ok (accept_of_ahead hplus)]
  simp only [Bool.false_eq_true, if_false, List.drop_zero]
  rw [bind_of_ok (accept_of_isReserved h)]
  simp [Reading.after]

theorem signed_of_ahead (hplus : (Token.ahead ts).isReserved "+" = false)
    (hminus : (Token.ahead ts).isReserved "-" = false) : signed inner ts = primary inner ts := by
  rw [signed, bind_of_ok (show peek ts = ⟨0, .ok (Token.ahead ts)⟩ from rfl), List.drop_zero,
    bind_of_ok (accept_of_ahead hplus)]
  simp only [Bool.false_eq_true, if_false, List.drop_zero]
  rw [bind_of_ok (accept_of_ahead hminus)]
  simp [Reading.after]

/-! ### Chains -/

section Chain

variable {symbols : List Char} {c : Char} {operand : Rule Tree} {left : Tree}

theorem chainFrom_of_none (h : (Token.ahead ts).symbolAmong? symbols = none) :
    chainFrom symbols operand left ts = ⟨0, .ok left⟩ := by
  cases ts with
  | nil => rw [chainFrom]
  | cons t ts =>
    have hnone : symbols.find? (fun c => t.isReserved (String.singleton c)) = none := h
    rw [chainFrom, hnone]

theorem chainFrom_of_unknown (h : t.symbolAmong? symbols = some c)
    (hc : Operator.ofSymbol? c = none) (ts : List Token) :
    chainFrom symbols operand left (t :: ts) = ⟨1, .error (.unknownOperator c)⟩ := by
  have hsome : symbols.find? (fun c => t.isReserved (String.singleton c)) = some c := h
  rw [chainFrom, hsome]
  simp only [hc]

theorem chainFrom_of_some {op : Operator} (h : t.symbolAmong? symbols = some c)
    (hc : Operator.ofSymbol? c = some op) (ts : List Token) :
    chainFrom symbols operand left (t :: ts) =
      ((operand >>= fun right => chainFrom symbols operand (.node op left right t.position))
        ts).after 1 := by
  have hsome : symbols.find? (fun c => t.isReserved (String.singleton c)) = some c := h
  rw [chainFrom, hsome]
  simp only [hc]
  rcases hr : operand ts with ⟨k, e | right⟩
  · rw [bind_of_error hr]
    rfl
  · rw [bind_of_ok hr]
    simp only [Reading.after, Nat.add_assoc]

theorem symbolAmong?_cases (symbols : List Char) (ts : List Token) :
    (Token.ahead ts).symbolAmong? symbols = none ∨
    ∃ t rest c, ts = t :: rest ∧ t.isStop = false ∧ t.symbolAmong? symbols = some c := by
  rcases h : (Token.ahead ts).symbolAmong? symbols with _ | c
  · exact Or.inl rfl
  · have hreserved := Token.isReserved_of_symbolAmong? h
    obtain ⟨t, rest, rfl, ht⟩ := Token.exists_of_ahead (Token.isStop_of_isReserved hreserved)
    rw [ht] at h hreserved
    exact Or.inr ⟨t, rest, c, rfl, Token.isStop_of_isReserved hreserved, h⟩

theorem chainFrom_congr {operand' : Rule Tree} (symbols : List Char) {ts : List Token}
    (h : ∀ k, operand (ts.drop k) = operand' (ts.drop k)) (left : Tree) :
    chainFrom symbols operand left ts = chainFrom symbols operand' left ts := by
  rcases symbolAmong?_cases symbols ts with hnone | ⟨t, rest, c, rfl, -, hc⟩
  · rw [chainFrom_of_none hnone, chainFrom_of_none hnone]
  rcases hop : Operator.ofSymbol? c with _ | op
  · rw [chainFrom_of_unknown hc hop, chainFrom_of_unknown hc hop]
  have hoperand : operand rest = operand' rest := h 1
  rw [chainFrom_of_some hc hop, chainFrom_of_some hc hop]
  rcases hr : operand' rest with ⟨k, e | right⟩
  · rw [bind_of_error (hoperand.trans hr), bind_of_error hr]
  · have hrest : ∀ j, operand ((rest.drop k).drop j) = operand' ((rest.drop k).drop j) := by
      intro j
      rw [List.drop_drop]
      exact h (k + j + 1)
    rw [bind_of_ok (hoperand.trans hr), bind_of_ok hr, chainFrom_congr symbols hrest]
termination_by ts.length
decreasing_by
  subst ts
  rw [List.length_drop, List.length_cons]
  omega

theorem chain_congr {operand' : Rule Tree} (symbols : List Char)
    (h : ∀ k, operand (ts.drop k) = operand' (ts.drop k)) :
    chain symbols operand ts = chain symbols operand' ts := by
  have hoperand : operand ts = operand' ts := h 0
  rw [chain, chain]
  rcases hr : operand' ts with ⟨k, e | left⟩
  · rw [bind_of_error (hoperand.trans hr), bind_of_error hr]
  · have hrest : ∀ j, operand ((ts.drop k).drop j) = operand' ((ts.drop k).drop j) := by
      intro j
      rw [List.drop_drop]
      exact h (k + j)
    rw [bind_of_ok (hoperand.trans hr), bind_of_ok hr, chainFrom_congr symbols hrest]

end Chain

/-! ### Chains of operators -/

variable {ops : List Operator} {operand : Rule Tree} {left : Tree}

/-- A chain that has been read up to its first operands, given by its operators. -/
def chainOf (ops : List Operator) (operand : Rule Tree) (left : Tree) : Rule Tree :=
  chainFrom (ops.map Operator.symbol) operand left

theorem product_eq (inner : Rule Tree) :
    product inner = signed inner >>= chainOf [.mul, .div] (signed inner) :=
  rfl

theorem sum_eq (inner : Rule Tree) :
    sum inner = product inner >>= chainOf [.add, .sub] (product inner) :=
  rfl

theorem symbolAmong?_of_noneAhead (h : NoneAhead ops ts) :
    (Token.ahead ts).symbolAmong? (ops.map Operator.symbol) = none := by
  simpa [Token.symbolAmong?, NoneAhead] using h

theorem symbolAmong?_of_mem {op : Operator} (hop : op ∈ ops)
    (h : t.isReserved (String.singleton op.symbol) = true) :
    t.symbolAmong? (ops.map Operator.symbol) = some op.symbol := by
  have hmem : (t.symbolAmong? (ops.map Operator.symbol)).isSome = true :=
    List.find?_isSome.mpr ⟨op.symbol, List.mem_map_of_mem hop, h⟩
  obtain ⟨c, hc⟩ := Option.isSome_iff_exists.mp hmem
  obtain ⟨op', -, rfl⟩ := List.mem_map.mp (List.mem_of_find?_eq_some hc)
  rw [hc, Operator.eq_of_isReserved (Token.isReserved_of_symbolAmong? hc) h]

theorem chainOf_of_noneAhead (h : NoneAhead ops ts) :
    chainOf ops operand left ts = ⟨0, .ok left⟩ :=
  chainFrom_of_none (symbolAmong?_of_noneAhead h)

theorem chainOf_of_mem {op : Operator} (hop : op ∈ ops)
    (h : t.isReserved (String.singleton op.symbol) = true) :
    chainOf ops operand left (t :: ts) =
      ((operand >>= fun right =>
        chainOf ops operand (.node op left right t.position)) ts).after 1 :=
  chainFrom_of_some (symbolAmong?_of_mem hop h) (Operator.ofSymbol?_symbol op) ts

theorem noneAhead_or (ops : List Operator) (ts : List Token) : NoneAhead ops ts ∨
    ∃ op ∈ ops, ∃ t rest, ts = t :: rest ∧ t.isReserved (String.singleton op.symbol) = true := by
  by_cases h : NoneAhead ops ts
  · exact Or.inl h
  · simp only [NoneAhead, Classical.not_forall, Bool.not_eq_false] at h
    obtain ⟨op, hop, h⟩ := h
    obtain ⟨t, rest, hts, ht⟩ := Token.exists_of_isReserved h
    exact Or.inr ⟨op, hop, t, rest, hts, ht⟩

/-! ### A whole expression -/

/-- What stands behind an expression: the end of the input. -/
def ended (t : Tree) : Rule Tree := do
  unless ← atStop do
    missing "end of input"
  return t

theorem whole_eq (limit : Nat) : whole limit = Level.sum.rule limit >>= ended :=
  rfl

theorem ended_apply (t : Tree) (ts : List Token) : ended t ts =
    ⟨0, if (Token.ahead ts).isStop then .ok t
      else .error (.expected "end of input" (Token.ahead ts))⟩ := by
  rw [ended, bind_of_ok (atStop_apply ts)]
  cases (Token.ahead ts).isStop
  · simp only [Bool.false_eq_true, if_false, List.drop_zero]
    rw [bind_of_error (missing_apply _ _)]
    rfl
  · rfl

theorem whole_of_ok {limit k : Nat} {u : Tree} (h : Level.sum.rule limit ts = ⟨k, .ok u⟩) :
    whole limit ts =
      if (Token.ahead (ts.drop k)).isStop then ⟨k, .ok u⟩
      else ⟨k, .error (.expected "end of input" (Token.ahead (ts.drop k)))⟩ := by
  rw [whole_eq, bind_of_ok h, ended_apply]
  split <;> rfl

theorem whole_of_error {limit k : Nat} {e : ParseError}
    (h : Level.sum.rule limit ts = ⟨k, .error e⟩) : whole limit ts = ⟨k, .error e⟩ :=
  bind_of_error h

end Rule

end ArithAsm
