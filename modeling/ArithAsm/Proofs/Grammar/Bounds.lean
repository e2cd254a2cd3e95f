import ArithAsm.Proofs.Grammar.Local

/-!
# A rule stays before the end of the input

A rule takes tokens of the list only, and none of them is an end of the input
(`Rule.InBounds`).  So where a list ends with the end of the input, the cursor never comes behind
its last token (`Rule.InBounds.consumed_lt`), and a rule that does not look past the token it stops
at does the same whatever is behind the list (`Rule.eq_of_append`).
-/

namespace ArithAsm.Rule

variable {α β : Type}

/-- What the rule takes of the tokens is there, and is not the end of the input. -/
def InBoundsAt (rule : Rule α) (ts : List Token) : Prop :=
  (rule ts).consumed ≤ ts.length ∧ ∀ t ∈ ts.take (rule ts).consumed, t.isStop = false

/-- **The rule never takes an end of the input.** -/
def InBounds (rule : Rule α) : Prop :=
  ∀ ts, rule.InBoundsAt ts

theorem InBoundsAt.bind {rule : Rule α} {second : α → Rule β} {ts : List Token}
    (h : rule.InBoundsAt ts)
    (h' : ∀ k x, rule ts = ⟨k, .ok x⟩ → (second x).InBoundsAt (ts.drop k)) :
    (rule >>= second).InBoundsAt ts := by
  obtain ⟨hlength, htaken⟩ := h
  rcases hr : rule ts with ⟨k, e | x⟩ <;> rw [hr] at hlength htaken
  · rw [InBoundsAt, bind_of_error hr]
    exact ⟨hlength, htaken⟩
  · obtain ⟨hlength', htaken'⟩ := h' k x hr
    rw [InBoundsAt, bind_of_ok hr]
    simp only [Reading.after] at hlength ⊢
    refine ⟨?_, ?_⟩
    · rw [List.length_drop] at hlength'
      omega
    · rw [List.take_add]
      exact List.forall_mem_append.mpr ⟨htaken, htaken'⟩

theorem InBoundsAt.cons {rule rule' : Rule α} {t : Token} {ts : List Token}
    (h : rule'.InBoundsAt ts) (ht : t.isStop = false)
    (heq : rule (t :: ts) = (rule' ts).after 1) : rule.InBoundsAt (t :: ts) := by
  obtain ⟨hlength, htaken⟩ := h
  have hconsumed : (rule (t :: ts)).consumed = (rule' ts).consumed + 1 := by
    rw [heq]
    exact Nat.add_comm _ _
  rw [InBoundsAt, hconsumed, List.length_cons, List.take_succ_cons]
  exact ⟨Nat.succ_le_succ hlength, List.forall_mem_cons.mpr ⟨ht, htaken⟩⟩

theorem inherited_inBoundsAt : Inherited fun _ rule ts => rule.InBoundsAt ts where
  stay h := by
    rw [InBoundsAt, h _ rfl]
    exact ⟨Nat.zero_le _, nofun⟩
  cons ht heq h := h.cons ht (heq _)
  bind h h' := h.bind h'

/-- **The rule for a whole expression never takes the end of the input.** -/
theorem inBounds_whole (limit : Nat) : (whole limit).InBounds :=
  inherited_inBoundsAt.whole limit

/-! ### A list that ends with the end of the input -/

section Last

variable {rule : Rule α} {ts : List Token} {last : Token}

/-- **The cursor stays on a token of the list.** -/
theorem InBounds.consumed_lt (h : rule.InBounds) (hlast : ts.getLast? = some last)
    (hstop : last.isStop = true) : (rule ts).consumed < ts.length := by
  obtain ⟨hlength, htaken⟩ := h ts
  refine Nat.lt_of_le_of_ne hlength fun hall => ?_
  rw [hall, List.take_length] at htaken
  have hnot := htaken last (List.mem_of_getLast? hlast)
  exact Bool.false_ne_true (hnot.symm.trans hstop)

/-- **What is behind the list has no influence.** -/
theorem eq_of_append (h : rule.InBounds) (hlocal : rule.Local) (hlast : ts.getLast? = some last)
    (hstop : last.isStop = true) (more : List Token) : rule (ts ++ more) = rule ts := by
  have hlt := h.consumed_lt hlast hstop
  refine hlocal ts (ts ++ more) ?_
  rw [List.take_append_of_le_length hlt]

end Last

end ArithAsm.Rule
