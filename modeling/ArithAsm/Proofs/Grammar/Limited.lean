import ArithAsm.Proofs.Grammar.Depth
import ArithAsm.Proofs.Grammar.Step

/-!
# Rules with a limit

A rule that gives up where too many parentheses are open is compared with one that has no limit, or
a greater one (`Rule.Limited`).  Either they do the same, and in the tokens taken fewer parentheses
are open at a time than the limit allows, or the limit is reached, and the tokens that the other
rule takes do open so many.  The rules of the grammar are compared one by one: chains and signs do
not use up the limit (`Rule.Limited.sum`), a parenthesis uses up one of it and gives it back when it
is closed (`Rule.Limited.parenthesis`).
-/

namespace ArithAsm

open Token (deepest Balanced)

namespace Rule

variable {α β : Type} {depth : Nat} {ts : List Token}

/-- **What a rule does under a limit.**  It does as the rule `free`, which has none, while in the
tokens taken fewer than `depth` parentheses are open at a time; or it fails because of the limit,
and in the tokens that `free` takes so many are open. -/
inductive Limited (depth : Nat) (rule free : Rule α) (ts : List Token) : Prop
  | within (heq : rule ts = free ts)
      (hdepth : ∀ opened, deepest opened (ts.take (free ts).consumed) < opened + depth)
      (hclosed : ∀ x, (free ts).result = .ok x → Balanced (ts.take (free ts).consumed))
  | tooDeep (herror : (rule ts).result = .error .tooDeep)
      (hdepth : ∀ opened, opened + depth ≤ deepest opened (ts.take (free ts).consumed))

theorem consumed_le_bind (rule : Rule α) (second : α → Rule β) (ts : List Token) :
    (rule ts).consumed ≤ ((rule >>= second) ts).consumed := by
  rcases hr : rule ts with ⟨k, e | x⟩
  · exact Nat.le_of_eq (by rw [bind_of_error hr])
  · rw [bind_of_ok hr]
    exact Nat.le_add_right k _

theorem take_one_add (t : Token) (ts : List Token) (k : Nat) :
    (t :: ts).take (1 + k) = t :: ts.take k := by
  rw [Nat.add_comm, List.take_succ_cons]

namespace Limited

variable {rule free rule' free' : Rule α} {t : Token}

theorem of_error {k : Nat} {e : ParseError} (h : rule ts = ⟨k, .error e⟩)
    (h' : free ts = ⟨k, .error e⟩)
    (hdepth : ∀ opened, deepest opened (ts.take k) < opened + depth) :
    Limited depth rule free ts := by
  refine .within (h.trans h'.symm) (fun opened => ?_) fun x hx => ?_
  · rw [h']
    exact hdepth opened
  · rw [h'] at hx
    cases hx

theorem of_eq (h : Limited depth rule free ts) (heq : rule' ts = rule ts)
    (heq' : free' ts = free ts) : Limited depth rule' free' ts := by
  cases h with
  | within h hdepth hclosed =>
    exact .within (by rw [heq, heq', h]) (by rwa [heq']) (by rwa [heq'])
  | tooDeep herror hdepth => exact .tooDeep (by rwa [heq]) (by rwa [heq'])

theorem stay {result : Except ParseError α} (hpos : 0 < depth) (h : rule ts = ⟨0, result⟩)
    (h' : free ts = ⟨0, result⟩) : Limited depth rule free ts := by
  refine .within (h.trans h'.symm) (fun opened => ?_) fun x _ => ?_
  · rw [h']
    exact Nat.lt_add_of_pos_right hpos
  · rw [h']
    exact Token.balanced_nil

theorem cons (ho : t.isReserved "(" = false) (hc : t.isReserved ")" = false)
    (h : Limited depth rule free ts) (heq : rule' (t :: ts) = (rule ts).after 1)
    (heq' : free' (t :: ts) = (free ts).after 1) : Limited depth rule' free' (t :: ts) := by
  have htake : (t :: ts).take ((free ts).after 1).consumed = t :: ts.take (free ts).consumed :=
    take_one_add t ts _
  cases h with
  | within h hdepth hclosed =>
    refine .within (by rw [heq, heq', h]) (fun opened => ?_) fun x hx => ?_
    · rw [heq', htake, Token.deepest_other ho hc]
      exact hdepth opened
    · rw [heq'] at hx ⊢
      rw [htake]
      exact (hclosed x hx).cons ho hc
  | tooDeep herror hdepth =>
    refine .tooDeep (by rw [heq]; exact herror) fun opened => ?_
    rw [heq', htake, Token.deepest_other ho hc]
    exact hdepth opened

theorem symbol (op : Operator) (hs : t.isReserved (String.singleton op.symbol) = true)
    (h : Limited depth rule free ts) (heq : rule' (t :: ts) = (rule ts).after 1)
    (heq' : free' (t :: ts) = (free ts).after 1) : Limited depth rule' free' (t :: ts) := by
  obtain ⟨ho, hc⟩ := Token.not_parenthesis_of_operator op hs
  exact h.cons ho hc heq heq'

/-- One rule after the other: what the first takes is closed again where the second starts. -/
theorem bind {second second' : α → Rule β} (h : Limited depth rule free ts)
    (h' : ∀ k x, free ts = ⟨k, .ok x⟩ → Limited depth (second x) (second' x) (ts.drop k)) :
    Limited depth (rule >>= second) (free >>= second') ts := by
  cases h with
  | tooDeep herror hdepth =>
    refine .tooDeep (by rw [bind_of_error (eq_of_result herror)]) fun opened => ?_
    exact Nat.le_trans (hdepth opened)
      (Token.deepest_take_le opened ts (consumed_le_bind free second' ts))
  | within heq hdepth hclosed =>
    rcases hr : free ts with ⟨k, e | x⟩ <;> rw [hr] at heq hdepth hclosed
    · exact of_error (bind_of_error heq) (bind_of_error hr) hdepth
    · have hbalanced : Balanced (ts.take k) := hclosed x rfl
      have hfree := @bind_of_ok _ _ _ second' _ _ _ hr
      have htake : ts.take ((free >>= second') ts).consumed
          = ts.take k ++ (ts.drop k).take (second' x (ts.drop k)).consumed := by
        rw [hfree, Reading.after, List.take_add]
      cases h' k x hr with
      | within heq' hdepth' hclosed' =>
        refine .within (by rw [bind_of_ok heq, hfree, heq']) (fun opened => ?_) fun y hy => ?_
        · rw [htake, hbalanced]
          exact Nat.max_lt.mpr ⟨hdepth opened, hdepth' opened⟩
        · rw [hfree] at hy
          rw [htake]
          exact hbalanced.append (hclosed' y hy)
      | tooDeep herror' hdepth' =>
        refine .tooDeep (by rw [bind_of_ok heq]; exact herror') fun opened => ?_
        rw [htake, hbalanced]
        exact Nat.le_trans (hdepth' opened) (Nat.le_max_right _ _)

end Limited

/-! ### The rules of the grammar -/

namespace Limited

variable {inner free operand operand' : Rule Tree} {ops : List Operator} {opening closing : Token}

theorem enclosure {k : Nat} {x : Tree} {rest : List Token} (ho : opening.isReserved "(" = true)
    (hc : closing.isReserved ")" = true) (h : inner ts = ⟨k, .ok x⟩) (h' : free ts = ⟨k, .ok x⟩)
    (hrest : ts.drop k = closing :: rest) (hbalanced : Balanced (ts.take k))
    (hdepth : ∀ opened, deepest opened (ts.take k) < opened + depth) :
    Limited (depth + 1) (Rule.primary inner) (Rule.primary free) (opening :: ts) := by
  have hprimary := primary_of_enclosed ho (enclosed_of_closing h hrest hc)
  have hfree := primary_of_enclosed ho (enclosed_of_closing h' hrest hc)
  have htake : (opening :: ts).take (1 + (k + 1)) = opening :: (ts.take k ++ [closing]) := by
    rw [take_one_add, List.take_add, hrest]
    rfl
  refine .within (hprimary.trans hfree.symm) (fun opened => ?_) fun _ _ => ?_
  · have hinner := hdepth (opened + 1)
    rw [hfree, htake, Token.deepest_enclosed ho hc hbalanced, deepest]
    omega
  · rw [hfree, htake]
    exact hbalanced.enclose ho hc

/-- **A parenthesis uses up one of the limit,** and gives it back when it is closed. -/
theorem parenthesis (ho : opening.isReserved "(" = true) (h : Limited depth inner free ts) :
    Limited (depth + 1) (Rule.primary inner) (Rule.primary free) (opening :: ts) := by
  cases h with
  | tooDeep herror hdepth =>
    have hprimary := primary_of_enclosed ho (enclosed_of_error (eq_of_result herror))
    refine .tooDeep (by rw [hprimary]) fun opened => ?_
    have hle : (free ts).consumed ≤ (enclosed free ts).consumed := consumed_le_bind free _ ts
    have hinner := hdepth (opened + 1)
    have hmore := Token.deepest_take_le (opened + 1) ts hle
    rw [primary_of_opening ho, Reading.after, take_one_add, Token.deepest_opening ho]
    omega
  | within heq hdepth hclosed =>
    rcases hr : free ts with ⟨k, e | x⟩ <;> rw [hr] at heq hdepth hclosed
    all_goals
      have hfront (opened : Nat) :
          deepest opened ((opening :: ts).take (1 + k)) < opened + (depth + 1) := by
        have hinner : deepest (opened + 1) (ts.take k) < opened + 1 + depth := hdepth (opened + 1)
        rw [take_one_add, Token.deepest_opening ho]
        omega
    · exact of_error (primary_of_enclosed ho (enclosed_of_error heq))
        (primary_of_enclosed ho (enclosed_of_error hr)) hfront
    · by_cases hahead : (Token.ahead (ts.drop k)).isReserved ")" = true
      · obtain ⟨closing, rest, hrest, hc⟩ := Token.exists_of_isReserved hahead
        exact enclosure ho hc heq hr hrest (hclosed x rfl) hdepth
      · have hahead := Bool.eq_false_iff.mpr hahead
        exact of_error (primary_of_enclosed ho (enclosed_of_ahead heq hahead))
          (primary_of_enclosed ho (enclosed_of_ahead hr hahead)) hfront

theorem primary (h : ∀ ts, Limited depth inner free ts) (ts : List Token) :
    Limited (depth + 1) (Rule.primary inner) (Rule.primary free) ts := by
  by_cases hopening : (Token.ahead ts).isReserved "(" = true
  · obtain ⟨opening, rest, rfl, ho⟩ := Token.exists_of_isReserved hopening
    exact parenthesis ho (h rest)
  have hopening := Bool.eq_false_iff.mpr hopening
  by_cases hnumber : ∃ v, (Token.ahead ts).kind = .number v
  · obtain ⟨v, hahead⟩ := hnumber
    obtain ⟨t, rest, rfl, hv⟩ := Token.exists_of_number hahead
    have hpure : Limited (depth + 1) (pure (Tree.number v t.position))
        (pure (Tree.number v t.position)) rest :=
      stay (Nat.succ_pos depth) (pure_apply _ rest) (pure_apply _ rest)
    exact hpure.cons (by simp [Token.isReserved, hv]) (by simp [Token.isReserved, hv])
      (primary_of_number hv) (primary_of_number hv)
  · have hnone := fun v hv => hnumber ⟨v, hv⟩
    exact stay (Nat.succ_pos depth) (primary_of_ahead hopening hnone)
      (primary_of_ahead hopening hnone)

theorem signed (h : ∀ ts, Limited depth inner free ts) (ts : List Token) :
    Limited (depth + 1) (Rule.signed inner) (Rule.signed free) ts := by
  have hprimary := primary h
  by_cases hplus : (Token.ahead ts).isReserved "+" = true
  · obtain ⟨t, rest, rfl, hs⟩ := Token.exists_of_isReserved hplus
    exact (hprimary rest).symbol .add hs (signed_of_plus hs) (signed_of_plus hs)
  by_cases hminus : (Token.ahead ts).isReserved "-" = true
  · obtain ⟨t, rest, rfl, hs⟩ := Token.exists_of_isReserved hminus
    refine Limited.symbol .sub hs ((hprimary rest).bind fun k x _ => ?_) (signed_of_minus hs)
      (signed_of_minus hs)
    exact stay (Nat.succ_pos depth) (pure_apply _ _) (pure_apply _ _)
  · have hplus := Bool.eq_false_iff.mpr hplus
    have hminus := Bool.eq_false_iff.mpr hminus
    exact (hprimary ts).of_eq (signed_of_ahead hplus hminus) (signed_of_ahead hplus hminus)

theorem chainOf (h : ∀ ts, Limited (depth + 1) operand operand' ts) (left : Tree)
    (ts : List Token) :
    Limited (depth + 1) (chainOf ops operand left) (chainOf ops operand' left) ts := by
  rcases noneAhead_or ops ts with hnone | ⟨op, hop, t, rest, rfl, hs⟩
  · exact stay (Nat.succ_pos depth) (chainOf_of_noneAhead hnone) (chainOf_of_noneAhead hnone)
  · refine Limited.symbol op hs ((h rest).bind fun k right _ => ?_) (chainOf_of_mem hop hs)
      (chainOf_of_mem hop hs)
    exact chainOf h _ (rest.drop k)
termination_by ts.length
decreasing_by
  subst ts
  rw [List.length_drop, List.length_cons]
  omega

theorem product (h : ∀ ts, Limited depth inner free ts) (ts : List Token) :
    Limited (depth + 1) (Rule.product inner) (Rule.product free) ts := by
  have hsigned := signed h
  rw [product_eq, product_eq]
  exact (hsigned ts).bind fun _ left _ => chainOf hsigned left _

/-- **Chains and signs do not use up the limit.** -/
theorem sum (h : ∀ ts, Limited depth inner free ts) (ts : List Token) :
    Limited (depth + 1) (Rule.sum inner) (Rule.sum free) ts := by
  have hproduct := product h
  rw [sum_eq, sum_eq]
  exact (hproduct ts).bind fun _ left _ => chainOf hproduct left _

theorem nested (h : free = Rule.sum free) : (depth : Nat) → (ts : List Token) →
    Limited depth (Rule.nested depth) free ts
  | 0, ts => .tooDeep rfl fun opened => Token.le_deepest opened _
  | depth + 1, ts => by
    rw [h]
    exact sum (nested h depth) ts

theorem nested_of_le {depth depth' : Nat} (h : depth ≤ depth') (ts : List Token) :
    Limited depth (Rule.nested depth) (Rule.nested depth') ts := by
  induction depth generalizing depth' ts with
  | zero => exact .tooDeep rfl fun opened => Token.le_deepest opened _
  | succ depth ih =>
    obtain ⟨more, rfl⟩ := Nat.exists_eq_add_of_le' h
    exact sum (ih (Nat.le_add_left depth more)) ts

/-- **A limit that is not reached has no influence.** -/
theorem eq_of_deepest_lt {rule free : Rule α} (h : Limited depth rule free ts)
    (hdeepest : deepest 0 ts < depth) : rule ts = free ts := by
  cases h with
  | within heq _ _ => exact heq
  | tooDeep _ hdepth =>
    have hfront := hdepth 0
    have happend := Token.deepest_le_append 0 (ts.take (free ts).consumed)
      (ts.drop (free ts).consumed)
    rw [List.take_append_drop] at happend
    omega

theorem eq_of_length_lt {rule free : Rule α} (h : Limited depth rule free ts)
    (hlength : ts.length < depth) : rule ts = free ts := by
  have hdeepest := Token.deepest_le_add_length 0 ts
  exact h.eq_of_deepest_lt (by omega)

end Limited

end Rule

end ArithAsm
