import ArithAsm.Proofs.Grammar.Bounds
import ArithAsm.Proofs.Grammar.Descent

/-!
# The discipline of the cursor

Calls of any kind, one after the other, move the cursor forward only, and never over an end of the
input (`Cursor.BeforeStops`, kept by one call and so by a list of them).  The main statement is
`Cursor.ask_disciplined`: in what way the cursor has moved when a call succeeds, where it stands
when a call fails, and that every call ends.
-/

namespace ArithAsm

open Token (ahead deepest)

/-! ### What the calls inherit -/

namespace Rule.Inherited

variable {P : (α : Type) → Rule α → List Token → Prop} (hP : Inherited P)

include hP

theorem level (level : Level) (limit : Nat) (ts : List Token) : P Tree (level.rule limit) ts := by
  have hinner := hP.nested limit
  cases level with
  | sum => exact hP.sum hinner ts
  | product => exact hP.product hinner ts
  | signed => exact hP.signed hinner ts
  | primary => exact hP.primary hinner ts

theorem routine (limit : Nat) : (routine : Routine) → (ts : List Token) →
    P Tree (routine.rule limit) ts
  | .level l, ts => hP.level l limit ts
  | .whole, ts => hP.whole limit ts
  | .chain symbols operand, ts => hP.chain symbols (routine limit operand) ts
  | .onward symbols operand left, ts =>
    hP.chainFrom symbols (routine limit operand) left ts

/-- **The rules of all calls have every property that the rules inherit.** -/
theorem call (limit : Nat) (ts : List Token) : (call : Call) → P call.Answer (call.rule limit) ts
  | .accept text => hP.accept text ts
  | .expect text => hP.expect text ts
  | .number => hP.number ts
  | .atStop => hP.atStop ts
  | .description => hP.bind (hP.peek ts) fun _ _ _ => hP.pure _ _
  | .complaint _ => hP.bind (hP.peek ts) fun _ _ _ => hP.pure _ _
  | .read routine => hP.routine limit routine ts

end Rule.Inherited

namespace Call

variable {limit : Nat} {ts : List Token}

theorem inBounds_rule (call : Call) (limit : Nat) : (call.rule limit).InBounds :=
  fun ts => Rule.inherited_inBoundsAt.call limit ts call

theorem local_rule (call : Call) (limit : Nat) : (call.rule limit).Local :=
  fun ts => Rule.inherited_localAt.call limit ts call

theorem consumed_of_isRefused {call : Call} (h : call.IsRefused (call.rule limit ts).result) :
    (call.rule limit ts).consumed = 0 := by
  cases call with
  | accept text =>
    rcases Rule.accept_cases text ts with haccept | haccept
    · rw [IsRefused, rule, haccept] at h
      cases h
    · rw [rule, haccept]
  | expect text =>
    rcases Rule.expect_cases text ts with hexpect | hexpect
    · rw [IsRefused, rule, hexpect] at h
      exact nomatch h
    · rw [rule, hexpect]
  | number =>
    rcases Rule.number_cases ts with ⟨x, hnumber⟩ | hnumber
    · rw [IsRefused, rule, hnumber] at h
      exact nomatch h
    · rw [rule, hnumber]
  | atStop => exact h.elim
  | description => exact h.elim
  | complaint what => exact h.elim
  | read routine => exact h.elim

open Routine (FailsThere failsThere_ok failsThere_expected)

/-- The symbols that a call takes for operators, besides those of the grammar. -/
def operatorSymbols : Call → List Char
  | read routine => routine.operatorSymbols
  | _ => []

/-- **A call fails at the token where it stops,** if the parentheses are within the limit. -/
theorem failsThere (call : Call) (hdepth : deepest 0 ts ≤ limit) :
    FailsThere call.operatorSymbols ts (call.rule limit ts) := by
  cases call with
  | accept text =>
    rcases Rule.accept_cases text ts with haccept | haccept
    · rw [rule, haccept]
      exact failsThere_ok [] ts 1 true
    · rw [rule, haccept]
      exact failsThere_ok [] ts 0 false
  | expect text =>
    rcases Rule.expect_cases text ts with hexpect | hexpect
    · rw [rule, hexpect]
      exact failsThere_ok [] ts 1 _
    · rw [rule, hexpect]
      exact failsThere_expected [] ts _
  | number =>
    rcases Rule.number_cases ts with ⟨x, hnumber⟩ | hnumber
    · rw [rule, hnumber]
      exact failsThere_ok [] ts 1 x
    · rw [rule, hnumber]
      exact failsThere_expected [] ts _
  | atStop => exact failsThere_ok [] ts 0 _
  | description => exact failsThere_ok [] ts 0 _
  | complaint what => exact failsThere_ok [] ts 0 _
  | read routine =>
    rw [rule, Routine.rule_eq_unbounded hdepth]
    exact Routine.Ends.failsThere (Routine.halts ts routine)

theorem failsThere_append {last : Token} (call : Call) (hlast : ts.getLast? = some last)
    (hstop : last.isStop = true) (hdepth : deepest 0 ts ≤ limit) (more : List Token) :
    FailsThere call.operatorSymbols (ts ++ more) (call.rule limit (ts ++ more)) := by
  have hlt := (call.inBounds_rule limit).consumed_lt hlast hstop
  rw [Rule.eq_of_append (call.inBounds_rule limit) (call.local_rule limit) hlast hstop more]
  have hahead : ahead ((ts ++ more).drop (call.rule limit ts).consumed)
      = ahead (ts.drop (call.rule limit ts).consumed) := by
    rw [List.drop_append_of_le_length (Nat.le_of_lt hlt), List.drop_eq_getElem_cons hlt]
    rfl
  intro e he
  rw [hahead]
  exact call.failsThere hdepth e he

end Call

/-! ### The cursor -/

namespace Cursor

variable {α : Type} {rule : Rule α} {c : Cursor} {ts : List Token} {last : Token} {limit : Nat}

/-- The cursor stands before every end of the input, or on it. -/
def BeforeStops (c : Cursor) : Prop :=
  ∀ i t, c.tokens[i]? = some t → t.isStop = true → c.index ≤ i

theorem beforeStops_start (ts : List Token) : BeforeStops ⟨ts, 0⟩ :=
  fun _ _ _ _ => Nat.zero_le _

theorem BeforeStops.run (h : c.BeforeStops) (hrule : rule.InBounds) :
    (c.run rule).2.BeforeStops := by
  intro i t ht hstop
  have hi : c.index ≤ i := h i t ht hstop
  refine Nat.le_of_not_lt fun hlt => ?_
  have hlt : i < c.index + (rule (c.tokens.drop c.index)).consumed := hlt
  obtain ⟨-, htaken⟩ := hrule (c.tokens.drop c.index)
  -- the token would be among those taken
  have htake : ((c.tokens.drop c.index).take
      (rule (c.tokens.drop c.index)).consumed)[i - c.index]? = some t := by
    rw [List.getElem?_take_of_lt (by omega), List.getElem?_drop, Nat.add_sub_cancel' hi]
    exact ht
  exact Bool.false_ne_true ((htaken t (List.mem_of_getElem? htake)).symm.trans hstop)

theorem BeforeStops.lt_length (h : c.BeforeStops) (hlast : c.tokens.getLast? = some last)
    (hstop : last.isStop = true) : c.index < c.tokens.length := by
  have hne : c.tokens ≠ [] := by
    rintro hnil
    rw [hnil] at hlast
    cases hlast
  have hpos := List.length_pos_iff.mpr hne
  rw [List.getLast?_eq_getElem?] at hlast
  have hle := h _ last hlast hstop
  omega

theorem BeforeStops.ask (h : c.BeforeStops) (limit : Nat) (call : Call) :
    (c.ask limit call).2.BeforeStops :=
  h.run (call.inBounds_rule limit)

/-- **Calls do not change the tokens, and do not move the cursor over an end of the input.** -/
theorem BeforeStops.after (h : c.BeforeStops) (limit : Nat) (calls : List Call) :
    (c.after limit calls).tokens = c.tokens ∧ (c.after limit calls).BeforeStops := by
  induction calls generalizing c with
  | nil => exact ⟨rfl, h⟩
  | cons call calls ih => exact ih (h.ask limit call)

/-- **A call fails at the token where it leaves the cursor,** if the parentheses in front of the
first end of the input are within the limit. -/
theorem BeforeStops.failsThere (h : c.BeforeStops) (hlast : c.tokens.getLast? = some last)
    (hstop : last.isStop = true) (hdepth : deepest 0 (Token.beforeStop c.tokens) ≤ limit)
    (call : Call) :
    Routine.FailsThere call.operatorSymbols (c.tokens.drop c.index)
      (call.rule limit (c.tokens.drop c.index)) := by
  obtain ⟨stop, rest, hts, hs⟩ := Token.exists_eq_beforeStop hlast hstop
  generalize Token.beforeStop c.tokens = front at hts hdepth
  have hindex : c.index ≤ front.length := h front.length stop (by rw [hts]; simp) hs
  have hlength : c.index < (front ++ [stop]).length := by
    rw [List.length_append, List.length_singleton]
    omega
  have hdrop : c.tokens.drop c.index = (front ++ [stop]).drop c.index ++ rest := by
    rw [← List.drop_append_of_le_length (Nat.le_of_lt hlength), List.append_assoc, hts]
    rfl
  have hlast' : ((front ++ [stop]).drop c.index).getLast? = some stop := by
    rw [List.getLast?_drop, if_neg (Nat.not_le_of_lt hlength), List.getLast?_concat]
  rw [hdrop]
  refine call.failsThere_append hlast' hs ?_ rest
  calc deepest 0 ((front ++ [stop]).drop c.index)
      ≤ deepest 0 (front ++ [stop]) := Token.deepest_drop_le _ _
    _ = deepest 0 front := Token.deepest_concat_stop hs 0 front
    _ ≤ limit := hdepth

theorem getElem?_index (hindex : c.index < c.tokens.length) :
    c.tokens[c.index]? = some (ahead (c.tokens.drop c.index)) := by
  rw [List.drop_eq_getElem_cons hindex, List.getElem?_eq_getElem hindex]
  rfl

theorem run_append (hrule : rule.InBounds) (hlocal : rule.Local)
    (hindex : c.index < c.tokens.length)
    (hlast : c.tokens.getLast? = some last) (hstop : last.isStop = true) (more : List Token) :
    Cursor.run rule ⟨c.tokens ++ more, c.index⟩
      = ((c.run rule).1, ⟨c.tokens ++ more, (c.run rule).2.index⟩) := by
  have hlast' : (c.tokens.drop c.index).getLast? = some last := by
    rw [List.getLast?_drop, if_neg (Nat.not_le_of_lt hindex), hlast]
  have hsame := Rule.eq_of_append hrule hlocal hlast' hstop more
  simp only [run, List.drop_append_of_le_length (Nat.le_of_lt hindex), hsame]

/-- **What a rule has read is a phrase,** if it succeeds, and so it has read something. -/
theorem derives_of_run {level : Level} {depth i : Nat} {rule : Rule Tree} {t : Tree}
    (hrule : Faithful depth (Derives level) (ts.drop i) (rule (ts.drop i)))
    (h : Cursor.run rule ⟨ts, i⟩ = (.ok t, c)) :
    i < c.index ∧ Derives level ((ts.take c.index).drop i) t := by
  obtain ⟨ht, rfl⟩ := Prod.mk.inj h
  simp only at ht ⊢
  rw [← List.take_drop]
  generalize ts.drop i = us at hrule ht ⊢
  generalize rule us = r at hrule ht ⊢
  cases hrule with
  | @ok front rest u hu =>
    obtain rfl : u = t := Except.ok.inj ht
    have hpos := List.length_pos_iff.mpr hu.ne_nil
    rw [List.take_left]
    exact ⟨Nat.lt_add_of_pos_right hpos, hu⟩
  | expected => cases ht
  | tooDeep => cases ht

/-- **The discipline of the cursor.**  The tokens end with the end of the input, and the parentheses
in front of the first one are within the limit.  Behind any calls, one more call moves the cursor
forward, on a token of the list still and not over an end of the input, as it would whatever stood
behind the list.  A token asked for in vain is not taken.  An error is about the token that the
cursor is left at, unless a chain was asked for with a symbol that writes no operator.  From every
place, a level or the rule for a whole expression that succeeds has read a phrase.  And every
routine ends on every list of tokens, in one way, which is that of its rule where the limit is not
exceeded. -/
theorem ask_disciplined {start : Cursor} (hstart : ofTokens ts = .ok start)
    (hdepth : deepest 0 (Token.beforeStop ts) ≤ limit) (calls : List Call) (call : Call) :
    let c := start.after limit calls
    let answer := (c.ask limit call).1
    let c' := (c.ask limit call).2
    (c'.tokens = ts ∧ c.index ≤ c'.index ∧ c'.index < ts.length ∧
      ∀ i t, ts[i]? = some t → t.isStop = true → c'.index ≤ i) ∧
    (∀ more, Cursor.ask limit call ⟨ts ++ more, c.index⟩ = (answer, ⟨ts ++ more, c'.index⟩)) ∧
    (call.IsRefused answer → c' = c) ∧
    (∀ e, answer = .error e →
      (∃ what found, e = .expected what found ∧ ts[c'.index]? = some found ∧
        e.position? = some found.position) ∨
      ∃ symbol ∈ call.operatorSymbols,
        e = .unknownOperator symbol ∧ Operator.ofSymbol? symbol = none) ∧
    (∀ what, ∃ found, ts[c.index]? = some found ∧
      c.ask limit (.complaint what) = (.ok (.expected what found), c)) ∧
    (∀ level i t c', Cursor.ask limit (.read (.level level)) ⟨ts, i⟩ = (.ok t, c') →
      i < c'.index ∧ Derives level ((ts.take c'.index).drop i) t) ∧
    (∀ i t c', Cursor.ask limit (.read .whole) ⟨ts, i⟩ = (.ok t, c') →
      i < c'.index ∧ Derives .sum ((ts.take c'.index).drop i) t) ∧
    ∀ (routine : Routine) (us : List Token), ∃ r, routine.Ends us r ∧
      (∀ r', routine.Ends us r' → r' = r) ∧ (deepest 0 us ≤ limit → routine.rule limit us = r) := by
  intro c answer c'
  obtain ⟨last, hlast, hstop, rfl⟩ := ofTokens_eq_ok_iff.mp hstart
  obtain ⟨htokens, hbefore⟩ : c.tokens = ts ∧ c.BeforeStops :=
    (beforeStops_start ts).after limit calls
  have hlast : c.tokens.getLast? = some last := htokens ▸ hlast
  have hindex : c.index < c.tokens.length := hbefore.lt_length hlast hstop
  have hbefore' : c'.BeforeStops := hbefore.ask limit call
  have hindex' : c'.index < c.tokens.length := hbefore'.lt_length hlast hstop
  clear_value c
  subst htokens
  refine ⟨⟨rfl, Nat.le_add_right _ _, hindex', hbefore'⟩, ?_, ?_, ?_, ?_, ?_, ?_, ?_⟩
  · exact run_append (call.inBounds_rule limit) (call.local_rule limit) hindex hlast hstop
  · intro hrefused
    have hconsumed := Call.consumed_of_isRefused hrefused
    exact congrArg (Cursor.mk c.tokens) (by rw [hconsumed, Nat.add_zero])
  · intro e he
    refine (hbefore.failsThere hlast hstop hdepth call e he).imp_left ?_
    rintro ⟨what, rfl⟩
    rw [List.drop_drop]
    exact ⟨what, _, rfl, getElem?_index hindex', rfl⟩
  · exact fun what => ⟨_, getElem?_index hindex, rfl⟩
  · exact fun level i t c' h => derives_of_run (Rule.faithful_level level limit _) h
  · exact fun i t c' h => derives_of_run (Rule.faithful_whole limit _) h
  · intro routine us
    refine ⟨routine.unbounded us, Routine.ends_iff.mpr rfl, fun r' h => ?_,
      Routine.rule_eq_unbounded⟩
    exact (Routine.ends_iff.mp h).symm

/-- A parenthesis that is not closed before an end of the input, with more tokens behind it: a sum
fails there, and so does the wish for the parenthesis. -/
theorem ask_disciplined_unclosed :
    let ts : List Token := [.ofSymbol '(' 0, ⟨.number 1, "1", 1⟩, .stop 2, .ofSymbol '(' 3,
      .ofSymbol '(' 4, .stop 5]
    ofTokens ts = .ok ⟨ts, 0⟩ ∧ deepest 0 (Token.beforeStop ts) ≤ 1 ∧
      Cursor.after 1 [.accept ")", .read (.level .sum)] ⟨ts, 0⟩ = ⟨ts, 2⟩ ∧
      ∀ more, Cursor.ask 1 (.expect ")") ⟨ts ++ more, 2⟩
        = (.error (.expected "')'" (.stop 2)), ⟨ts ++ more, 2⟩) := by
  intro ts
  have hstart : ofTokens ts = .ok ⟨ts, 0⟩ := by rfl
  have hdepth : deepest 0 (Token.beforeStop ts) ≤ 1 := by decide
  have hsum : Cursor.run (Level.sum.rule 1) ⟨ts, 0⟩
      = (.error (.expected "')'" (.stop 2)), ⟨ts, 2⟩) := by cbv
  have hafter : Cursor.after 1 [.accept ")", .read (.level .sum)] ⟨ts, 0⟩ = ⟨ts, 2⟩ :=
    congrArg Prod.snd hsum
  obtain ⟨-, hbehind, -⟩ :=
    ask_disciplined hstart hdepth [.accept ")", .read (.level .sum)] (.expect ")")
  rw [hafter] at hbehind
  exact ⟨hstart, hdepth, hafter, hbehind⟩

end Cursor

end ArithAsm
