import ArithAsm.Proofs.Arm64.Simulation
import ArithAsm.Proofs.Tree.Value

/-!
# A program computes the residue of the value of its tree

The operations of the machine on residues are those of the expressions on words (`operate_residue`),
so that the outcome of a tree that has a value is the residue of this value
(`outcome_eq_residue`).  With the simulation this gives the main statement, `run_lower_eq_residue`:
the text of a program, read line by line, returns the residue of the value of the tree and keeps the
stack and its pointer in order on the way.
-/

namespace ArithAsm.Arm64

open Backend (arm64Darwin)

/-- **The operations on residues are those on words.** -/
theorem operate_residue (op : Operator) {x y : Int} (hx : IsWord x) (hy : IsWord y) :
    operate op (residue x) (residue y) = residue (op.exact x y) := by
  cases op with
  | add =>
    refine residue_eq_residue ?_
    rw [residue_eq_emod, residue_eq_emod]
    exact (Int.add_emod x y _).symm
  | sub =>
    refine residue_eq_residue ?_
    rw [residue_eq_emod, residue_eq_emod]
    exact (Int.sub_emod x y _).symm
  | mul =>
    refine residue_eq_residue ?_
    rw [residue_eq_emod, residue_eq_emod]
    exact (Int.mul_emod x y _).symm
  | div =>
    unfold operate
    rw [wrap_residue_of_isWord hx, wrap_residue_of_isWord hy]
    rfl

/-- **The outcome of a tree is the residue of its value.** -/
theorem outcome_eq_residue {t : Tree} {v : Int} (h : t.value = .ok v) : outcome t = residue v := by
  induction t generalizing v with
  | leaf a =>
    cases a with
    | number value position =>
      rw [← Except.ok.inj h, residue_wrap]
      rfl
    | placeholder kind => cases h
    | foreign text => cases h
  | node op left right position ihl ihr =>
    obtain ⟨x, y, hx, hy, happly⟩ := Tree.value_node_eq_ok_iff.mp h
    have hv : v = wrap (op.exact x y) := by
      unfold Operator.apply at happly
      split at happly
      · cases happly
      · exact (Except.ok.inj happly).symm
    rw [outcome, ihl hx, ihr hy, operate_residue op (Tree.isWord_of_value hx)
      (Tree.isWord_of_value hy), hv, residue_wrap]

/-- **A program computes the residue of the value of its tree,** from any state: its text is read
back and returns behind the last line with the residue in `x0`, with the stack and its pointer as at
the start; in every state on the way the pointer is at or below where it was, by whole slots of 16
bytes. -/
theorem run_lower_eq_residue {t : Tree} {v : Int} (ht : t.AllNumbers IsLiteral)
    (hv : t.value = .ok v) (start : State) :
    ∃ text lines states last, arm64Darwin.lower t = .ok text ∧ readProgram text = some lines ∧
      run start lines = .ok (states, []) ∧ states.getLast? = some last ∧
      last.x0 = residue v ∧ last.stack = start.stack ∧ last.sp = start.sp ∧
      ∀ s ∈ states, s.sp ≤ start.sp ∧ 16 ∣ start.sp - s.sp := by
  obtain ⟨states, last, hrun, hlast, hx0, hstack, hsp, habove⟩ := run_program ht start
  rw [outcome_eq_residue hv] at hx0
  exact ⟨_, _, states, last, lower_arm64Darwin ht, readProgram_program ht, hrun, hlast, hx0, hstack,
    hsp, fun s hs => (habove s hs).sp_le⟩

/-- The least word, built as the residue of a difference, divided by a literal of four fields that
stands for `-1`: the quotient wraps. -/
theorem run_lower_eq_residue_wraps :
    let t : Tree := .node .div (.node .sub (.number 0 none) (.number 9223372036854775808 none) none)
      (.number (-1) none) none
    t.AllNumbers IsLiteral ∧ t.value = .ok (-9223372036854775808) ∧
      ∃ text lines states last, arm64Darwin.lower t = .ok text ∧ readProgram text = some lines ∧
        run ⟨1, 2, 3, [7], 0⟩ lines = .ok (states, []) ∧ states.getLast? = some last ∧
        last.x0 = 9223372036854775808 ∧ last.stack = [7] := by
  intro t
  have ht : t.AllNumbers IsLiteral := by decide
  have hv : t.value = .ok (-9223372036854775808) := by rfl
  obtain ⟨text, lines, states, last, hlower, hread, hrun, hlast, hx0, hstack, -, -⟩ :=
    run_lower_eq_residue ht hv ⟨1, 2, 3, [7], 0⟩
  exact ⟨ht, hv, text, lines, states, last, hlower, hread, hrun, hlast, hx0, hstack⟩

end ArithAsm.Arm64
