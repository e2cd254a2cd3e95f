import ArithAsm.Proofs.X64.Outcome

/-!
# A program computes the value of its tree

On a machine that wraps quotients the text of a program, read line by line, returns the value of the
tree at its last line, faults exactly when the value divides by zero, and leaves everything that was
on the stack alone (`run_lower_eq_value`).
-/

namespace ArithAsm.X64

open Backend (x64Linux)

/-- What a run from `start` has to do for the value of a tree: to return it behind the last line,
with the stack as at the start, or to fault for want of it. -/
def Computes (start : State) (value : Except EvalError Int)
    (result : Except Fault (State × List Line)) : Prop :=
  match value with
  | .ok v => ∃ s, result = .ok (s, []) ∧ s.rax = v ∧ s.stack = start.stack
  | .error e => e = .divisionByZero ∧ result = .error .divide

theorem Computes.divide_iff {start : State} {value : Except EvalError Int}
    {result : Except Fault (State × List Line)} (h : Computes start value result) :
    result = .error .divide ↔ value = .error .divisionByZero := by
  rcases value with e | v
  · obtain ⟨rfl, rfl⟩ := h
    exact ⟨fun _ => rfl, fun _ => rfl⟩
  · obtain ⟨s, rfl, -⟩ := h
    exact ⟨fun hresult => (by cases hresult), fun hvalue => (by cases hvalue)⟩

/-- **A program computes the value of its tree,** from any state: its text is read back, it never
gets below the stack it is started with, and the one fault it can meet is a division by zero, which
it meets exactly when the value of the tree does. -/
theorem run_lower_eq_value {t : Tree} (ht : t.AllNumbers IsWord) (start : State) :
    ∃ text lines, x64Linux.lower t = .ok text ∧ readProgram text = some lines ∧
      (∀ s ∈ visited true start lines, start.stack <:+ s.stack) ∧
      Computes start t.value (run true start lines) ∧
      (run true start lines = .error .divide ↔ t.value = .error .divisionByZero) := by
  have hnum : t.AllNumbers Text.HasDecimal := ht.mono fun _ => Text.hasDecimal_of_isWord
  obtain ⟨hreturn, hfault, hvisited⟩ := run_program (w := true) hnum start
  have hcomputes : Computes start t.value (run true start (x64Linux.program t)) := by
    rcases Tree.value_of_allNumbers ht with ⟨v, hv⟩ | hv
    · rw [hv]
      exact hreturn v (outcome?_eq_some_iff.mpr ⟨hv, Or.inl rfl⟩)
    · rw [hv]
      refine ⟨rfl, hfault (Option.eq_none_iff_forall_ne_some.mpr fun v houtcome => ?_)⟩
      have hok := (outcome?_eq_some_iff.mp houtcome).1
      rw [hv] at hok
      cases hok
  exact ⟨_, _, lower_x64Linux hnum, readProgram_program hnum, hvisited, hcomputes,
    hcomputes.divide_iff⟩

/-- Literals that a push cannot hold, and a quotient that is truncated toward zero. -/
theorem run_lower_eq_value_wide :
    let t : Tree := .node .div (.node .sub (.number 5 none) (.number 9223372036854775807 none) none)
      (.number 4294967296 none) none
    t.AllNumbers IsWord ∧ ∃ text lines s, x64Linux.lower t = .ok text ∧
      readProgram text = some lines ∧ run true ⟨1, 2, 3, [7]⟩ lines = .ok (s, []) ∧
      s.rax = -2147483647 ∧ s.stack = [7] := by
  intro t
  have ht : t.AllNumbers IsWord := by decide
  obtain ⟨text, lines, hlower, hread, -, hcomputes, -⟩ := run_lower_eq_value ht ⟨1, 2, 3, [7]⟩
  have hvalue : t.value = .ok (-2147483647) := by rfl
  rw [hvalue] at hcomputes
  obtain ⟨s, hrun, hrax, hstack⟩ := hcomputes
  exact ⟨ht, text, lines, s, hlower, hread, hrun, hrax, hstack⟩

end ArithAsm.X64
