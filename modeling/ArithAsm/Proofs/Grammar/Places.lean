import ArithAsm.Proofs.Grammar.Step
import ArithAsm.Proofs.Token.Respelling

/-!
# The places of the tokens do not matter

Tokens keep their places and their texts for the errors that point at them and for the tree.  No
rule looks at a place, or at the text of a number (`Rule.Respects`): on tokens that agree up to
these (`Token.Same`) a rule takes as many of them, and it gives trees that agree up to their places
or errors that agree up to the token they point at.  `parse_agree` says this of the parser.
-/

namespace ArithAsm

open List (Forall₂)

/-! ### What agrees up to the places -/

/-- **The errors are of one kind,** at tokens that agree up to their places. -/
inductive ParseError.Same : ParseError → ParseError → Prop
  | expected (what : String) {found found' : Token} (h : found.Same found') :
      Same (.expected what found) (.expected what found')
  | refl (e : ParseError) : Same e e

namespace Token

variable {t u : Token} {ts us : List Token}

theorem Same.isReserved_eq (h : t.Same u) (text : String) :
    t.isReserved text = u.isReserved text := by
  rw [Bool.eq_iff_iff, isReserved_iff, isReserved_iff]
  constructor
  · rintro ⟨hkind, rfl⟩
    exact ⟨h.1.symm.trans hkind, (h.2 hkind).symm⟩
  · rintro ⟨hkind, rfl⟩
    exact ⟨h.1.trans hkind, h.2 (h.1.trans hkind)⟩

theorem Same.isStop_eq (h : t.Same u) : t.isStop = u.isStop := by
  rw [isStop, isStop, h.1]

theorem same_ahead (h : Forall₂ Same ts us) : (ahead ts).Same (ahead us) := by
  cases h with
  | nil => exact Same.refl _
  | cons h _ => exact h

end Token

/-- The readings take as many tokens, and their results agree. -/
structure Reading.Alike {α : Type} (R : α → α → Prop) (r s : Reading α) : Prop where
  consumed : r.consumed = s.consumed
  result : Agree ParseError.Same R r.result s.result

namespace Rule

variable {α β : Type} {R : α → α → Prop} {S : β → β → Prop} {ts us : List Token}

/-- **The rules do the same on tokens that agree up to their places,** and their results agree. -/
def Respects (R : α → α → Prop) (rule rule' : Rule α) : Prop :=
  ∀ ts us, Forall₂ Token.Same ts us → (rule ts).Alike R (rule' us)

/-! ### Rules put together -/

theorem alike_bind {rule rule' : Rule α} {second second' : α → Rule β}
    (h : (rule ts).Alike R (rule' us))
    (h' : ∀ k x y, rule ts = ⟨k, .ok x⟩ → R x y →
      (second x (ts.drop k)).Alike S (second' y (us.drop k))) :
    ((rule >>= second) ts).Alike S ((rule' >>= second') us) := by
  rcases hr : rule ts with ⟨k, result⟩
  rcases hr' : rule' us with ⟨k', result'⟩
  rw [hr, hr'] at h
  obtain ⟨rfl, hresult⟩ := h
  cases hresult with
  | @ok x y hxy =>
    obtain ⟨hconsumed, hagree⟩ := h' k x y hr hxy
    rw [bind_of_ok hr, bind_of_ok hr']
    exact ⟨congrArg (k + ·) hconsumed, hagree⟩
  | error he =>
    rw [bind_of_error hr, bind_of_error hr']
    exact ⟨rfl, .error he⟩

theorem Respects.bind {rule rule' : Rule α} {second second' : α → Rule β}
    (h : Respects R rule rule') (h' : ∀ x y, R x y → Respects S (second x) (second' y)) :
    Respects S (rule >>= second) (rule' >>= second') :=
  fun ts us hts => alike_bind (h ts us hts) fun k x y _ hxy =>
    h' x y hxy _ _ (List.forall₂_drop k hts)

theorem alike_after {r s : Reading α} (h : r.Alike R s) (taken : Nat) :
    (r.after taken).Alike R (s.after taken) :=
  ⟨congrArg (taken + ·) h.consumed, h.result⟩

/-! ### The rules of the grammar -/

theorem respects_pure {x y : α} (h : R x y) : Respects R (pure x) (pure y) :=
  fun _ _ _ => ⟨rfl, .ok h⟩

theorem respects_fail {e e' : ParseError} (h : e.Same e') : Respects R (fail e) (fail e') :=
  fun _ _ _ => ⟨rfl, .error h⟩

theorem respects_peek : Respects Token.Same peek peek :=
  fun _ _ hts => ⟨rfl, .ok (Token.same_ahead hts)⟩

theorem respects_missing (what : String) : Respects R (missing what) (missing what) :=
  respects_peek.bind fun _ _ hfound => respects_fail (.expected what hfound)

theorem respects_atStop : Respects Eq atStop atStop :=
  respects_peek.bind fun _ _ hfound => respects_pure hfound.isStop_eq

theorem respects_accept (text : String) : Respects Eq (accept text) (accept text) := by
  intro ts us hts
  cases hts with
  | nil => exact ⟨rfl, .ok rfl⟩
  | @cons t u ts us htu hts =>
    rw [accept, accept, htu.isReserved_eq text]
    cases u.isReserved text with
    | false => exact ⟨rfl, .ok rfl⟩
    | true => exact ⟨rfl, .ok rfl⟩

theorem respects_expect (text : String) : Respects Eq (expect text) (expect text) := by
  refine (respects_accept text).bind fun b _ hb => ?_
  subst hb
  cases b
  · exact respects_missing _
  · exact respects_pure rfl

theorem respects_number : Respects (fun x y => x.2 = y.2) number number := by
  intro ts us hts
  have hahead := Token.same_ahead hts
  by_cases hnumber : ∃ v, (Token.ahead ts).kind = .number v
  · obtain ⟨v, hv⟩ := hnumber
    obtain ⟨t, ts, rfl, ht⟩ := Token.exists_of_number hv
    obtain ⟨u, us, rfl, hu⟩ := Token.exists_of_number (hahead.1.symm.trans hv)
    rw [number_of_kind ht, number_of_kind hu]
    exact ⟨rfl, .ok rfl⟩
  · rw [number_of_ahead fun v hv => hnumber ⟨v, hv⟩,
      number_of_ahead fun v hv => hnumber ⟨v, hahead.1.trans hv⟩]
    exact ⟨rfl, .error (.expected _ hahead)⟩

variable {ops : List Operator} {operand inner : Rule Tree}

theorem alike_chainOf (h : Respects Tree.Same operand operand) {left left' : Tree}
    (hleft : left.Same left') (ts us : List Token) (hts : Forall₂ Token.Same ts us) :
    (chainOf ops operand left ts).Alike Tree.Same (chainOf ops operand left' us) := by
  rcases noneAhead_or ops ts with hnone | ⟨op, hop, t, rest, rfl, hs⟩
  · have hnone' : NoneAhead ops us := fun op hop => by
      rw [← (Token.same_ahead hts).isReserved_eq]
      exact hnone op hop
    rw [chainOf_of_noneAhead hnone, chainOf_of_noneAhead hnone']
    exact ⟨rfl, .ok hleft⟩
  · obtain ⟨u, rest', htu, hrest, rfl⟩ := List.forall₂_cons_left_iff.mp hts
    have hs' : u.isReserved (String.singleton op.symbol) = true := by
      rw [← htu.isReserved_eq]
      exact hs
    rw [chainOf_of_mem hop hs, chainOf_of_mem hop hs']
    refine alike_after (alike_bind (h rest rest' hrest) fun k right right' _ hright => ?_) 1
    have hnode := hleft.node hright op t.position u.position
    exact alike_chainOf h hnode (rest.drop k) (rest'.drop k) (List.forall₂_drop k hrest)
termination_by ts.length
decreasing_by
  subst ts
  rw [List.length_drop, List.length_cons]
  omega

theorem respects_primary (h : Respects Tree.Same inner inner) :
    Respects Tree.Same (primary inner) (primary inner) := by
  refine (respects_accept "(").bind fun b _ hb => ?_
  subst hb
  cases b
  · exact respects_number.bind fun x y hxy => respects_pure (Tree.same_number hxy _ _)
  · refine h.bind fun t u htu => (respects_expect ")").bind fun _ _ _ => ?_
    exact respects_pure htu

theorem respects_signed (h : Respects Tree.Same inner inner) :
    Respects Tree.Same (signed inner) (signed inner) := by
  have hprimary := respects_primary h
  refine respects_peek.bind fun sign sign' _ => (respects_accept "+").bind fun b _ hb => ?_
  subst hb
  cases b
  · refine (respects_accept "-").bind fun b _ hb => ?_
    subst hb
    cases b
    · exact hprimary
    · refine hprimary.bind fun t u htu => respects_pure ?_
      exact (Tree.same_number rfl _ _).node htu _ _ _
  · exact hprimary

theorem respects_product (h : Respects Tree.Same inner inner) :
    Respects Tree.Same (product inner) (product inner) := by
  rw [product_eq]
  exact (respects_signed h).bind fun _ _ hleft => alike_chainOf (respects_signed h) hleft

theorem respects_sum (h : Respects Tree.Same inner inner) :
    Respects Tree.Same (sum inner) (sum inner) := by
  rw [sum_eq]
  exact (respects_product h).bind fun _ _ hleft => alike_chainOf (respects_product h) hleft

theorem respects_nested : (depth : Nat) → Respects Tree.Same (nested depth) (nested depth)
  | 0 => respects_fail (.refl _)
  | depth + 1 => respects_sum (respects_nested depth)

/-- **The rule for a whole expression looks at no place.** -/
theorem respects_whole (limit : Nat) : Respects Tree.Same (whole limit) (whole limit) := by
  refine (respects_sum (respects_nested limit)).bind fun t u htu =>
    respects_atStop.bind fun b _ hb => ?_
  subst hb
  cases b
  · exact (respects_missing (R := Eq) _).bind fun _ _ _ => respects_pure htu
  · exact respects_pure htu

end Rule

/-! ### The parser -/

theorem ofTokens_agree {ts us : List Token} (h : Forall₂ Token.Same ts us) :
    Agree ParseError.Same (fun c d => c = ⟨ts, 0⟩ ∧ d = ⟨us, 0⟩)
      (Cursor.ofTokens ts) (Cursor.ofTokens us) := by
  have hlast : Forall₂ Token.Same ts.reverse us.reverse := List.rel_reverse h
  rw [Cursor.ofTokens, Cursor.ofTokens, List.getLast?_eq_head?_reverse,
    List.getLast?_eq_head?_reverse]
  generalize ts.reverse = ts', us.reverse = us' at hlast
  cases hlast with
  | nil => exact .error (.refl _)
  | @cons t u _ _ htu _ =>
    simp only [List.head?_cons, htu.isStop_eq]
    cases u.isStop with
    | false => exact .error (.refl _)
    | true => exact .ok ⟨rfl, rfl⟩

/-- **The parser looks at no place:** on tokens that agree up to their places it gives trees that
agree up to their places, or errors of one kind. -/
theorem parse_agree (limit : Nat) {ts us : List Token} (h : Forall₂ Token.Same ts us) :
    Agree ParseError.Same Tree.Same (parse limit ts) (parse limit us) := by
  refine (ofTokens_agree h).bind fun c d hcd => ?_
  obtain ⟨rfl, rfl⟩ := hcd
  exact (Rule.respects_whole limit ts us h).result

end ArithAsm
