import ArithAsm.Proofs.Grammar.Step

/-!
# Properties that the rules inherit

A rule takes nothing, for what it sees of the token in front, or it takes that token, or it is two
rules one after the other.  A property that these three ways of making a rule preserve
(`Rule.Inherited`) is one of every rule of the grammar, and of that for a whole expression
(`Rule.Inherited.whole`).
-/

namespace ArithAsm.Rule

/-- **The rules inherit the property,** which is one of a rule in front of some tokens. -/
structure Inherited (P : (α : Type) → Rule α → List Token → Prop) : Prop where
  /-- Nothing is taken, whatever stands behind the token in front. -/
  stay {α : Type} {rule : Rule α} {result : Except ParseError α} {ts : List Token}
    (h : ∀ us, Token.ahead us = Token.ahead ts → rule us = ⟨0, result⟩) : P α rule ts
  /-- The token in front is taken, and then what another rule takes. -/
  cons {α : Type} {rule rule' : Rule α} {t : Token} {ts : List Token} (ht : t.isStop = false)
    (heq : ∀ us, rule (t :: us) = (rule' us).after 1) (h : P α rule' ts) : P α rule (t :: ts)
  /-- One rule is followed by another. -/
  bind {α β : Type} {rule : Rule α} {second : α → Rule β} {ts : List Token} (h : P α rule ts)
    (h' : ∀ k x, rule ts = ⟨k, .ok x⟩ → P β (second x) (ts.drop k)) : P β (rule >>= second) ts

namespace Inherited

variable {P : (α : Type) → Rule α → List Token → Prop} (hP : Inherited P)
  {operand inner : Rule Tree}

include hP

/-! ### Rules for one token -/

theorem pure {α : Type} (x : α) (ts : List Token) : P α (pure x) ts :=
  hP.stay fun _ _ => rfl

theorem fail {α : Type} (e : ParseError) (ts : List Token) : P α (fail e) ts :=
  hP.stay fun _ _ => rfl

theorem peek (ts : List Token) : P Token peek ts := by
  have hpeek (us : List Token) : Rule.peek us = ⟨0, .ok (Token.ahead us)⟩ := rfl
  exact hP.stay fun us hus => hus ▸ hpeek us

theorem accept (text : String) (ts : List Token) : P Bool (accept text) ts := by
  cases hahead : (Token.ahead ts).isReserved text with
  | true =>
    obtain ⟨t, rest, rfl, ht⟩ := Token.exists_of_isReserved hahead
    exact hP.cons (Token.isStop_of_isReserved ht) (fun _ => accept_of_isReserved ht)
      (hP.pure true rest)
  | false =>
    refine hP.stay fun us hus => accept_of_ahead ?_
    rw [hus, hahead]

theorem number (ts : List Token) : P (Token × Int) number ts := by
  by_cases hnumber : ∃ v, (Token.ahead ts).kind = .number v
  · obtain ⟨v, hahead⟩ := hnumber
    obtain ⟨t, rest, rfl, hv⟩ := Token.exists_of_number hahead
    have hstop : t.isStop = false := by simp [Token.isStop, hv]
    exact hP.cons hstop (fun _ => number_of_kind hv) (hP.pure (t, v) rest)
  · have hnone {us : List Token} (hus : Token.ahead us = Token.ahead ts) :=
      number_of_ahead fun v hv => hnumber ⟨v, hus ▸ hv⟩
    exact hP.stay fun us hus => hus ▸ hnone hus

theorem missing {α : Type} (what : String) (ts : List Token) : P α (missing what) ts :=
  hP.bind (hP.peek ts) fun _ _ _ => hP.fail _ _

theorem atStop (ts : List Token) : P Bool atStop ts :=
  hP.bind (hP.peek ts) fun _ _ _ => hP.pure _ _

theorem expect (text : String) (ts : List Token) : P PUnit (expect text) ts := by
  refine hP.bind (hP.accept text ts) fun _ b _ => ?_
  cases b
  · exact hP.missing _ _
  · exact hP.pure _ _

/-! ### The grammar -/

theorem chainFrom (symbols : List Char) (h : ∀ ts, P Tree operand ts) (left : Tree)
    (ts : List Token) : P Tree (chainFrom symbols operand left) ts := by
  rcases symbolAmong?_cases symbols ts with hnone | ⟨t, rest, c, rfl, ht, hc⟩
  · exact hP.stay fun us hus => chainFrom_of_none (by rwa [hus])
  rcases hop : Operator.ofSymbol? c with _ | op
  · exact hP.cons ht (chainFrom_of_unknown hc hop) (hP.fail (.unknownOperator c) rest)
  · refine hP.cons ht (chainFrom_of_some hc hop) ?_
    refine hP.bind (h rest) fun k right _ => ?_
    exact chainFrom symbols h _ (rest.drop k)
termination_by ts.length
decreasing_by
  subst ts
  rw [List.length_drop, List.length_cons]
  omega

theorem chain (symbols : List Char) (h : ∀ ts, P Tree operand ts) (ts : List Token) :
    P Tree (chain symbols operand) ts :=
  hP.bind (h ts) fun _ left _ => hP.chainFrom symbols h left _

theorem primary (h : ∀ ts, P Tree inner ts) (ts : List Token) : P Tree (primary inner) ts := by
  refine hP.bind (hP.accept "(" ts) fun _ b _ => ?_
  cases b
  · exact hP.bind (hP.number _) fun _ _ _ => hP.pure _ _
  · refine hP.bind (h _) fun _ t _ => ?_
    exact hP.bind (hP.expect ")" _) fun _ _ _ => hP.pure _ _

theorem signed (h : ∀ ts, P Tree inner ts) (ts : List Token) : P Tree (signed inner) ts := by
  have hprimary := hP.primary h
  refine hP.bind (hP.peek ts) fun _ sign _ => hP.bind (hP.accept "+" _) fun _ b _ => ?_
  cases b
  · refine hP.bind (hP.accept "-" _) fun _ b _ => ?_
    cases b
    · exact hprimary _
    · exact hP.bind (hprimary _) fun _ _ _ => hP.pure _ _
  · exact hprimary _

theorem product (h : ∀ ts, P Tree inner ts) (ts : List Token) : P Tree (product inner) ts :=
  hP.chain ['*', '/'] (hP.signed h) ts

theorem sum (h : ∀ ts, P Tree inner ts) (ts : List Token) : P Tree (sum inner) ts :=
  hP.chain ['+', '-'] (hP.product h) ts

theorem nested : (depth : Nat) → (ts : List Token) → P Tree (nested depth) ts
  | 0, ts => hP.fail _ ts
  | depth + 1, ts => hP.sum (nested depth) ts

theorem ended (t : Tree) (ts : List Token) : P Tree (ended t) ts := by
  refine hP.bind (hP.atStop ts) fun _ b _ => ?_
  cases b
  · exact hP.bind (hP.missing _ _) fun _ _ _ => hP.pure _ _
  · exact hP.pure _ _

/-- **The rule for a whole expression has every property that the rules inherit.** -/
theorem whole (limit : Nat) (ts : List Token) : P Tree (whole limit) ts :=
  hP.bind (hP.sum (hP.nested limit) ts) fun _ t _ => hP.ended t _

end Inherited

end ArithAsm.Rule
