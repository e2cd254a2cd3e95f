import ArithAsm.Proofs.Grammar.Inherited

/-!
# How far a rule looks

A rule does not look past the token it stops at: on two lists that agree up to that token it does
the same (`Rule.Local`).  The tokens behind have no influence, neither on the tree nor on the error.
-/

namespace ArithAsm

namespace Rule

variable {α β : Type}

/-- On tokens that agree with `ts` up to the one where the rule stops, it does what it does on
`ts`. -/
def LocalAt (rule : Rule α) (ts : List Token) : Prop :=
  ∀ us, us.take ((rule ts).consumed + 1) = ts.take ((rule ts).consumed + 1) → rule us = rule ts

/-- **The rule does not look past the token it stops at.** -/
def Local (rule : Rule α) : Prop :=
  ∀ ts, rule.LocalAt ts

theorem ahead_eq_of_take {ts us : List Token} {n : Nat} (h : us.take (n + 1) = ts.take (n + 1)) :
    Token.ahead us = Token.ahead ts := by
  cases us <;> cases ts <;> simp_all [Token.ahead]

theorem LocalAt.eq_of_take {rule : Rule α} {ts us : List Token} {n : Nat} (h : rule.LocalAt ts)
    (hn : (rule ts).consumed < n) (htake : us.take n = ts.take n) : rule us = rule ts := by
  have hshort := congrArg (List.take ((rule ts).consumed + 1)) htake
  rw [List.take_take, List.take_take, Nat.min_eq_left hn] at hshort
  exact h us hshort

theorem Local.le_consumed {rule : Rule α} {ts us : List Token} {n : Nat} (h : rule.Local)
    (hn : n ≤ (rule ts).consumed) (htake : us.take n = ts.take n) : n ≤ (rule us).consumed := by
  refine Nat.le_of_not_lt fun hlt => ?_
  rw [(h us).eq_of_take hlt htake.symm] at hn
  omega

theorem LocalAt.bind {rule : Rule α} {second : α → Rule β} {ts : List Token}
    (h : rule.LocalAt ts)
    (h' : ∀ k x, rule ts = ⟨k, .ok x⟩ → (second x).LocalAt (ts.drop k)) :
    (rule >>= second).LocalAt ts := by
  intro us htake
  rcases hr : rule ts with ⟨k, e | x⟩
  · rw [bind_of_error hr] at htake ⊢
    have hus : rule us = ⟨k, .error e⟩ := by
      rw [← hr]
      exact h us (by rwa [hr])
    rw [bind_of_error hus]
  · rw [bind_of_ok hr] at htake ⊢
    simp only [Reading.after] at htake
    generalize hk' : (second x (ts.drop k)).consumed = k' at htake
    have hconsumed : (rule ts).consumed < k + k' + 1 := by
      rw [hr]
      exact Nat.lt_succ_of_le (Nat.le_add_right k k')
    have hus : rule us = ⟨k, .ok x⟩ := (h.eq_of_take hconsumed htake).trans hr
    have hdrop : (us.drop k).take (k' + 1) = (ts.drop k).take (k' + 1) := by
      have hlong := congrArg (List.drop k) htake
      rwa [Nat.add_assoc, ← List.take_drop, ← List.take_drop] at hlong
    rw [bind_of_ok hus, h' k x hr (us.drop k) (by rwa [hk'])]

theorem LocalAt.cons {rule rule' : Rule α} {t : Token} {ts : List Token} (h : rule'.LocalAt ts)
    (heq : ∀ us, rule (t :: us) = (rule' us).after 1) : rule.LocalAt (t :: ts) := by
  intro us htake
  rw [heq] at htake ⊢
  rw [show (rule' ts |>.after 1).consumed = (rule' ts).consumed + 1 from Nat.add_comm _ _] at htake
  cases us with
  | nil => cases htake
  | cons u us =>
    simp only [List.take_succ_cons, List.cons.injEq] at htake
    obtain ⟨rfl, htake⟩ := htake
    rw [heq, h us htake]

theorem inherited_localAt : Inherited fun _ rule ts => rule.LocalAt ts where
  stay h us htake := (h us (ahead_eq_of_take htake)).trans (h _ rfl).symm
  cons _ heq h := h.cons heq
  bind h h' := h.bind h'

/-- **The rule for a whole expression does not look past the token it stops at.** -/
theorem local_whole (limit : Nat) : (whole limit).Local :=
  inherited_localAt.whole limit

end Rule

end ArithAsm
