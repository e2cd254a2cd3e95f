import ArithAsm.Proofs.Grammar.Depth
import ArithAsm.Proofs.Grammar.Phrase

/-!
# The rules read phrases

What a rule takes is a phrase of its level if the rule succeeds, and can be completed to one if it
fails for want of a token; `Faithful` says this for any set of phrases, and says what it takes to
fail because of the depth.  The main statement is `faithful_sum`, and `faithful_nested` for what
stands in parentheses.  A chain is read from its front, so the statement about the rest of a chain
(`faithful_chainOf`) is about the phrases that begin with what was read.
-/

namespace ArithAsm

/-- **What a reading of the tokens says about them,** for the phrases `Means` and the trees they
stand for: those taken are a phrase, or they are the front of one and the error is at the first
token not taken, or `depth` parentheses are open at the same time in them. -/
inductive Faithful (depth : Nat) (Means : List Token → Tree → Prop) :
    List Token → Reading Tree → Prop
  | ok (front rest : List Token) {t : Tree} (h : Means front t) :
      Faithful depth Means (front ++ rest) ⟨front.length, .ok t⟩
  | expected (front rest missing : List Token) {t : Tree} {what : String}
      (h : Means (front ++ missing) t) :
      Faithful depth Means (front ++ rest)
        ⟨front.length, .error (.expected what (Token.ahead rest))⟩
  | tooDeep (front rest : List Token)
      (h : ∀ opened, opened + depth ≤ Token.deepest opened front) :
      Faithful depth Means (front ++ rest) ⟨front.length, .error .tooDeep⟩

namespace Faithful

variable {depth depth' : Nat} {Means : List Token → Tree → Prop} {ts : List Token}

/-! ### Rules put together -/

theorem after (front : List Token) {r : Reading Tree}
    (h : Faithful depth (fun us => Means (front ++ us)) ts r)
    (hdeep : ∀ us, (∀ opened, opened + depth ≤ Token.deepest opened us) →
      ∀ opened, opened + depth' ≤ Token.deepest opened (front ++ us)) :
    Faithful depth' Means (front ++ ts) (r.after front.length) := by
  cases h with
  | ok us rest h =>
    rw [Reading.after, ← List.append_assoc, ← List.length_append]
    exact ok (front ++ us) rest h
  | expected us rest missing h =>
    rw [Reading.after, ← List.append_assoc, ← List.length_append]
    exact expected (front ++ us) rest missing (by rwa [List.append_assoc])
  | tooDeep us rest h =>
    rw [Reading.after, ← List.append_assoc, ← List.length_append]
    exact tooDeep (front ++ us) rest (hdeep us h)

/-- **One rule after the other.**  Every phrase of the first rule has to begin a phrase of both. -/
theorem bind {level : Level} {rule : Rule Tree} {second : Tree → Rule Tree}
    (h : Faithful depth (Derives level) ts (rule ts))
    (h' : ∀ front rest t, ts = front ++ rest → Derives level front t →
      Faithful depth (fun us => Means (front ++ us)) rest (second t rest))
    (hmeans : ∀ front t, Derives level front t → ∃ more u, Means (front ++ more) u) :
    Faithful depth Means ts ((rule >>= second) ts) := by
  generalize hr : rule ts = r at h
  cases h with
  | @ok front rest t h =>
    rw [Rule.bind_of_ok hr, List.drop_left]
    refine (h' front rest t rfl h).after front fun us hus opened => ?_
    exact Nat.le_trans (hus opened) (h.deepest_le opened us)
  | @expected front rest missing t what h =>
    rw [Rule.bind_of_error hr]
    obtain ⟨more, u, hu⟩ := hmeans _ t h
    exact expected front rest (missing ++ more) (by rwa [← List.append_assoc])
  | tooDeep front rest h =>
    rw [Rule.bind_of_error hr]
    exact tooDeep front rest h

theorem mono {Means' : List Token → Tree → Prop} {r : Reading Tree}
    (h : Faithful depth Means ts r) (hmeans : ∀ us t, Means us t → Means' us t) :
    Faithful depth Means' ts r := by
  cases h with
  | ok front rest h => exact ok front rest (hmeans _ _ h)
  | expected front rest missing h => exact expected front rest missing (hmeans _ _ h)
  | tooDeep front rest h => exact tooDeep front rest h

theorem pure {t : Tree} (h : Means [] t) :
    Faithful depth Means ts ((Pure.pure t : Rule Tree) ts) :=
  ok [] ts h

theorem missing (more : List Token) {t : Tree} {what : String} (h : Means more t) :
    Faithful depth Means ts ⟨0, .error (.expected what (Token.ahead ts))⟩ :=
  expected [] ts more h

end Faithful

/-! ### Operands -/

namespace Rule

variable {depth : Nat} {inner : Rule Tree}

theorem faithful_enclosed {opening : Token} (ho : opening.isReserved "(" = true)
    {ts : List Token} (h : Faithful depth (Derives .sum) ts (inner ts)) :
    Faithful depth (fun us => Derives .primary (opening :: us)) ts (enclosed inner ts) := by
  have hclosing : (Token.ofSymbol ')' 0).isReserved ")" = true := by decide
  refine h.bind (fun front rest t _ ht => ?_) fun front t ht =>
    ⟨[Token.ofSymbol ')' 0], t, .parenthesized ho hclosing ht⟩
  by_cases hahead : (Token.ahead rest).isReserved ")" = true
  · obtain ⟨closing, rest, rfl, hc⟩ := Token.exists_of_isReserved hahead
    rw [bind_of_ok (expect_of_isReserved hc)]
    exact Faithful.ok [closing] rest (.parenthesized ho hc ht)
  · rw [bind_of_error (expect_of_ahead (Bool.eq_false_iff.mpr hahead))]
    exact Faithful.missing [Token.ofSymbol ')' 0] (.parenthesized ho hclosing ht)

theorem faithful_primary (h : ∀ ts, Faithful depth (Derives .sum) ts (inner ts)) (ts : List Token) :
    Faithful (depth + 1) (Derives .primary) ts (primary inner ts) := by
  by_cases hopening : (Token.ahead ts).isReserved "(" = true
  · obtain ⟨opening, rest, rfl, ho⟩ := Token.exists_of_isReserved hopening
    rw [primary_of_opening ho]
    refine (faithful_enclosed ho (h rest)).after [opening] fun us hus opened => ?_
    have hinner := hus (opened + 1)
    rw [List.singleton_append, Token.deepest_opening ho]
    omega
  by_cases hnumber : ∃ v, (Token.ahead ts).kind = .number v
  · obtain ⟨v, hahead⟩ := hnumber
    obtain ⟨t, rest, rfl, hv⟩ := Token.exists_of_number hahead
    rw [primary_of_number hv]
    exact Faithful.ok [t] rest (.number hv)
  · rw [primary_of_ahead (Bool.eq_false_iff.mpr hopening) fun v hv => hnumber ⟨v, hv⟩]
    exact Faithful.missing [⟨.number 0, "0", 0⟩] (.number rfl)

theorem faithful_signed (h : ∀ ts, Faithful depth (Derives .primary) ts (primary inner ts))
    (ts : List Token) : Faithful depth (Derives .signed) ts (signed inner ts) := by
  by_cases hp : (Token.ahead ts).isReserved "+" = true
  · obtain ⟨sign, rest, rfl, hs⟩ := Token.exists_of_isReserved hp
    rw [signed_of_plus hs]
    refine ((h rest).mono fun us t => .plus hs).after [sign] fun us hus opened => ?_
    rw [List.singleton_append, Token.deepest_operator .add hs]
    exact hus opened
  by_cases hm : (Token.ahead ts).isReserved "-" = true
  · obtain ⟨sign, rest, rfl, hs⟩ := Token.exists_of_isReserved hm
    rw [signed_of_minus hs]
    refine Faithful.after [sign] (Faithful.bind (h rest) ?_ ?_) fun us hus opened => ?_
    · exact fun front rest t _ ht => Faithful.pure (by simpa using .minus hs ht)
    · exact fun front t ht => ⟨[], _, by simpa using .minus hs ht⟩
    · rw [List.singleton_append, Token.deepest_operator .sub hs]
      exact hus opened
  · rw [signed_of_ahead (Bool.eq_false_iff.mpr hp) (Bool.eq_false_iff.mpr hm)]
    exact (h ts).mono fun us t => .unsigned

/-! ### Chains -/

variable {ops : List Operator} {level part : Level} {operand : Rule Tree}

theorem faithful_chainOf (hc : level.Chains ops part)
    (h : ∀ ts, Faithful depth (Derives part) ts (operand ts)) (ts : List Token) {ls : List Token}
    {l : Tree} (hl : Derives level ls l) :
    Faithful depth (fun us => Derives level (ls ++ us)) ts (chainOf ops operand l ts) := by
  rcases noneAhead_or ops ts with hnone | ⟨op, hop, symbol, rest, rfl, hs⟩
  · rw [chainOf_of_noneAhead hnone]
    exact Faithful.pure (by rwa [List.append_nil])
  rw [chainOf_of_mem hop hs]
  refine Faithful.after [symbol] (Faithful.bind (h rest) ?_ ?_) fun us hus opened => ?_
  · -- what was read so far is the left operand of the rest
    intro front rest' r hrest hr
    have hnode := hc.derives_more hop hs hl hr
    refine (faithful_chainOf hc h rest' hnode).mono fun us t ht => ?_
    simpa using ht
  · exact fun front r hr => ⟨[], _, by simpa using hc.derives_more hop hs hl hr⟩
  · rw [List.singleton_append, Token.deepest_operator op hs]
    exact hus opened
termination_by ts.length
decreasing_by
  subst ts hrest
  rw [List.length_cons, List.length_append]
  omega

theorem faithful_chain (hc : level.Chains ops part)
    (h : ∀ ts, Faithful depth (Derives part) ts (operand ts)) (ts : List Token) :
    Faithful depth (Derives level) ts ((operand >>= chainOf ops operand) ts) :=
  (h ts).bind (fun _ rest _ _ ht => faithful_chainOf hc h rest (hc.derives_one ht)) fun _ t ht =>
    ⟨[], t, by simpa using hc.derives_one ht⟩

/-! ### The levels -/

theorem faithful_product (h : ∀ ts, Faithful depth (Derives .sum) ts (inner ts)) (ts : List Token) :
    Faithful (depth + 1) (Derives .product) ts (product inner ts) :=
  faithful_chain .product (faithful_signed (faithful_primary h)) ts

theorem faithful_sum (h : ∀ ts, Faithful depth (Derives .sum) ts (inner ts)) (ts : List Token) :
    Faithful (depth + 1) (Derives .sum) ts (sum inner ts) :=
  faithful_chain .sum (faithful_product h) ts

theorem faithful_nested : (depth : Nat) → (ts : List Token) →
    Faithful depth (Derives .sum) ts (nested depth ts)
  | 0, ts => Faithful.tooDeep [] ts fun opened => Token.le_deepest opened []
  | depth + 1, ts => faithful_sum (faithful_nested depth) ts

/-- **The rule of a level reads phrases of the level.** -/
theorem faithful_level (level : Level) (limit : Nat) (ts : List Token) :
    Faithful (limit + 1) (Derives level) ts (level.rule limit ts) := by
  have hinner := faithful_nested limit
  cases level with
  | sum => exact faithful_sum hinner ts
  | product => exact faithful_product hinner ts
  | signed => exact faithful_signed (faithful_primary hinner) ts
  | primary => exact faithful_primary hinner ts

end Rule

end ArithAsm
