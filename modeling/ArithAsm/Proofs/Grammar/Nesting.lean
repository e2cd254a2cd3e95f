import ArithAsm.Proofs.Grammar.Limited
import ArithAsm.Proofs.Grammar.Parse

/-!
# The limit is about parentheses only

`Rule.unbounded` is the descent without a limit: it is the one rule for an expression that calls
itself in parentheses (`Rule.unbounded_eq`, `Rule.eq_unbounded`).  The depth of a list of tokens is
the number of parentheses that this descent has open at a time, in the tokens it takes.  A parser
with a limit does as the one without, if the depth is within the limit, and otherwise gives up
(`parse_of_le`, `parse_of_lt`).  How deep the descent has come does not depend on the
tokens that follow (`deepest_take_le_unboundedDepth`), so neither does it that the limit is exceeded
there.  The main statement is `parse_parentheses`.
-/

namespace ArithAsm

open Token (deepest)

namespace Rule

variable {depth : Nat} {ts : List Token}

/-! ### The descent without a limit -/

/-- **An expression, with any number of parentheses open.**  More of them than there are tokens
cannot be. -/
def unbounded : Rule Tree :=
  fun ts => nested (ts.length + 1) ts

theorem unbounded_apply (h : ts.length < depth) : unbounded ts = nested depth ts :=
  (Limited.nested_of_le h ts).eq_of_length_lt (Nat.lt_succ_self _)

theorem limited_nested (depth : Nat) (ts : List Token) :
    Limited depth (nested depth) unbounded ts := by
  have hunbounded := unbounded_apply (Nat.lt_of_lt_of_le (Nat.lt_succ_self ts.length)
    (Nat.le_max_right depth (ts.length + 1)))
  exact (Limited.nested_of_le (Nat.le_max_left depth (ts.length + 1)) ts).of_eq rfl hunbounded

/-- **The descent without a limit calls itself in parentheses.** -/
theorem unbounded_eq : unbounded = sum unbounded := by
  funext ts
  have hsum := (Limited.sum (limited_nested (ts.length + 1)) ts).eq_of_length_lt (by omega)
  rw [unbounded_apply (show ts.length < ts.length + 2 by omega), ← hsum]
  rfl

/-- **No other rule does.** -/
theorem eq_unbounded {inner : Rule Tree} (h : inner = sum inner) : inner = unbounded := by
  funext ts
  exact ((Limited.nested h (ts.length + 1) ts).eq_of_length_lt (Nat.lt_succ_self _)).symm

/-- An expression without a limit, and nothing after it. -/
def wholeUnbounded : Rule Tree :=
  unbounded >>= ended

theorem limited_whole (limit : Nat) (ts : List Token) :
    Limited (limit + 1) (whole limit) wholeUnbounded ts := by
  rw [wholeUnbounded, unbounded_eq, whole_eq]
  refine (Limited.sum (limited_nested limit) ts).bind fun k t _ => ?_
  exact .stay (Nat.succ_pos limit) (ended_apply t _) (ended_apply t _)

theorem local_wholeUnbounded : wholeUnbounded.Local := by
  intro ts
  refine inherited_localAt.bind (fun us hus => ?_) fun k t _ => inherited_localAt.ended t _
  -- a limit that is none for both lists
  have hts : ts.length < ts.length + us.length + 1 := by omega
  have hus' : us.length < ts.length + us.length + 1 := by omega
  rw [unbounded_apply hts] at hus ⊢
  rw [unbounded_apply hus']
  exact inherited_localAt.nested _ ts us hus

theorem length_le_unbounded {front : List Token} (h : ∀ t ∈ front, t.isReserved "(" = true)
    (rest : List Token) : front.length ≤ (unbounded (front ++ rest)).consumed := by
  induction front with
  | nil => exact Nat.zero_le _
  | cons t front ih =>
    obtain ⟨ht, hfront⟩ := List.forall_mem_cons.mp h
    have hprimary : (primary unbounded (t :: (front ++ rest))).consumed
        = 1 + (enclosed unbounded (front ++ rest)).consumed := by
      rw [primary_of_opening ht]
      rfl
    have hsigned : signed unbounded (t :: (front ++ rest))
        = primary unbounded (t :: (front ++ rest)) :=
      signed_of_ahead (Token.isReserved_eq_false ht (by decide))
        (Token.isReserved_eq_false ht (by decide))
    have hinner : (unbounded (front ++ rest)).consumed
        ≤ (enclosed unbounded (front ++ rest)).consumed := consumed_le_bind _ _ _
    have hproduct : (signed unbounded (t :: (front ++ rest))).consumed
        ≤ (product unbounded (t :: (front ++ rest))).consumed := consumed_le_bind _ _ _
    have hsum : (product unbounded (t :: (front ++ rest))).consumed
        ≤ (sum unbounded (t :: (front ++ rest))).consumed := consumed_le_bind _ _ _
    have hrest := ih hfront
    rw [hsigned, hprimary] at hproduct
    rw [← unbounded_eq] at hsum
    rw [List.cons_append, List.length_cons]
    omega

theorem length_le_wholeUnbounded {front : List Token} (h : ∀ t ∈ front, t.isReserved "(" = true)
    (rest : List Token) : front.length ≤ (wholeUnbounded (front ++ rest)).consumed :=
  Nat.le_trans (length_le_unbounded h rest) (consumed_le_bind unbounded ended _)

end Rule

open Rule (wholeUnbounded)

/-! ### The parser with a limit and without -/

/-- **The tree of a list of tokens, whatever the number of open parentheses.** -/
def parseUnbounded (tokens : List Token) : Except ParseError Tree := do
  let start ← Cursor.ofTokens tokens
  (start.run wholeUnbounded).1

/-- The greatest number of parentheses that the descent without a limit has open at a time. -/
def unboundedDepth (tokens : List Token) : Nat :=
  deepest 0 (tokens.take (wholeUnbounded tokens).consumed)

section

variable {ts us : List Token} {last : Token} {limit n : Nat}

theorem parseUnbounded_eq (hlast : ts.getLast? = some last) (hstop : last.isStop = true) :
    parseUnbounded ts = (wholeUnbounded ts).result := by
  rw [parseUnbounded, Cursor.ofTokens_of_stop hlast hstop]
  rfl

theorem unboundedDepth_le (ts : List Token) : unboundedDepth ts ≤ deepest 0 ts := by
  have happend := Token.deepest_le_append 0 (ts.take (wholeUnbounded ts).consumed)
    (ts.drop (wholeUnbounded ts).consumed)
  rwa [List.take_append_drop] at happend

theorem parseUnbounded_ne_tooDeep (hlast : ts.getLast? = some last) (hstop : last.isStop = true) :
    parseUnbounded ts ≠ .error .tooDeep := by
  have hwhole := (Rule.limited_whole ts.length ts).eq_of_length_lt (Nat.lt_succ_self _)
  have hfaithful := Rule.faithful_whole ts.length ts
  rw [parseUnbounded_eq hlast hstop, ← hwhole]
  generalize Rule.whole ts.length ts = r at hfaithful
  cases hfaithful with
  | ok front rest h => exact nofun
  | expected front rest missing h => exact nofun
  | tooDeep front rest h =>
    have hle := Token.deepest_le_add_length 0 front
    have hlt := h 0
    rw [List.length_append] at hlt
    omega

/-- **A limit that is not exceeded has no influence.** -/
theorem parse_of_le (hlast : ts.getLast? = some last) (hstop : last.isStop = true)
    (h : unboundedDepth ts ≤ limit) : parse limit ts = parseUnbounded ts := by
  rw [parse_eq hlast hstop, parseUnbounded_eq hlast hstop]
  cases Rule.limited_whole limit ts with
  | within heq _ _ => rw [heq]
  | tooDeep _ hdepth =>
    have hlt : 0 + (limit + 1) ≤ unboundedDepth ts := hdepth 0
    omega

/-- **A limit that is exceeded is the error,** whatever else is wrong. -/
theorem parse_of_lt (hlast : ts.getLast? = some last) (hstop : last.isStop = true)
    (h : limit < unboundedDepth ts) : parse limit ts = .error .tooDeep := by
  rw [parse_eq hlast hstop]
  cases Rule.limited_whole limit ts with
  | within _ hdepth _ =>
    have hle : unboundedDepth ts < 0 + (limit + 1) := hdepth 0
    omega
  | tooDeep herror _ => exact herror

/-- **The parser gives up because of the depth exactly if the limit is exceeded.** -/
theorem parse_eq_tooDeep_iff (hlast : ts.getLast? = some last) (hstop : last.isStop = true) :
    parse limit ts = .error .tooDeep ↔ limit < unboundedDepth ts := by
  refine ⟨fun h => Nat.lt_of_not_le fun hle => ?_, parse_of_lt hlast hstop⟩
  rw [parse_of_le hlast hstop hle] at h
  exact parseUnbounded_ne_tooDeep hlast hstop h

theorem deepest_take_le_unboundedDepth (hn : n ≤ (wholeUnbounded ts).consumed)
    (htake : us.take n = ts.take n) : deepest 0 (ts.take n) ≤ unboundedDepth us := by
  rw [← htake]
  exact Token.deepest_take_le 0 us (Rule.local_wholeUnbounded.le_consumed hn htake)

/-- **The limit is about parentheses only.**  A parser that can have `limit` parentheses open at a
time, at least 120 and fewer than 300, gives the tree or the error of the descent without a limit
if this never has more than 120 open, however long the chains are.  If this has come to a place
where 300 are open, the parser gives up because of the depth, whatever tokens follow there. -/
theorem parse_parentheses (hlimit : 120 ≤ limit) (hlimit' : limit < 300)
    (hlast : ts.getLast? = some last) (hstop : last.isStop = true) :
    (unboundedDepth ts ≤ 120 → parse limit ts = parseUnbounded ts) ∧
    ∀ n ≤ (wholeUnbounded ts).consumed, 300 ≤ deepest 0 (ts.take n) →
      ∀ us last, us.getLast? = some last → last.isStop = true → us.take n = ts.take n →
        parse limit us = .error .tooDeep := by
  refine ⟨fun hdepth => ?_, fun n hn hdepth us last hlast hstop htake => ?_⟩
  · exact parse_of_le hlast hstop (Nat.le_trans hdepth hlimit)
  · have hreached := deepest_take_le_unboundedDepth hn htake
    exact parse_of_lt hlast hstop (by omega)

/-- With a limit of 150: 120 parentheses give the error of the descent without a limit, and 300
parentheses are too many, also if they are followed by something that is wrong anyway. -/
theorem parse_parentheses_openings :
    let openings (n : Nat) : List Token := List.replicate n (.ofSymbol '(' 0)
    let ts := openings 300 ++ [.stop 0]
    let us := openings 300 ++ [.ofSymbol ')' 0, .stop 0]
    120 ≤ 150 ∧ 150 < 300 ∧ (Token.stop 0).isStop = true ∧ ts.getLast? = some (.stop 0) ∧
      parse 150 (openings 120 ++ [.stop 0]) = parseUnbounded (openings 120 ++ [.stop 0]) ∧
      300 ≤ (wholeUnbounded ts).consumed ∧ 300 ≤ deepest 0 (ts.take 300) ∧
      us.take 300 = ts.take 300 ∧ parse 150 us = .error .tooDeep := by
  intro openings ts us
  have hopening (n : Nat) : ∀ t ∈ openings n, t.isReserved "(" = true := by
    intro t ht
    obtain rfl := List.eq_of_mem_replicate ht
    decide
  have hlast {front : List Token} : (front ++ [Token.stop 0]).getLast? = some (.stop 0) :=
    List.getLast?_concat
  have hconsumed : 300 ≤ (wholeUnbounded ts).consumed := by
    have hlength := Rule.length_le_wholeUnbounded (hopening 300) [.stop 0]
    rwa [List.length_replicate] at hlength
  have hdepth : 300 ≤ deepest 0 (ts.take 300) := by decide +kernel
  have hshallow : unboundedDepth (openings 120 ++ [.stop 0]) ≤ 120 :=
    Nat.le_trans (unboundedDepth_le _) (by decide +kernel)
  have htake : us.take 300 = ts.take 300 := by decide +kernel
  have hus : us.getLast? = some (.stop 0) := by simp [us]
  have hlow : 120 ≤ 150 := by decide
  have hhigh : 150 < 300 := by decide
  have hwithin := (parse_parentheses hlow hhigh hlast rfl).1 hshallow
  have hdeep := (parse_parentheses hlow hhigh hlast rfl).2 300 hconsumed hdepth us (.stop 0)
    hus rfl htake
  exact ⟨hlow, hhigh, rfl, hlast, hwithin, hconsumed, hdepth, htake, hdeep⟩

end

end ArithAsm
