import ArithAsm.Proofs.Grammar.Literals
import ArithAsm.Proofs.X64.Outcome

/-!
# A program on a processor

A processor refuses a quotient that is no word, where the value of the tree wraps it.  The program
of a source therefore returns the value of its tree unless a division overflows, and faults when it
does (`run_processor`); the program and the value agree exactly for the trees in which no division
overflows that is ever reached (`Agrees`).  A source can write such a division, although it cannot
write the least word as a literal (`processor_faults_minWord`).
-/

namespace ArithAsm.X64

open Backend (x64Linux)
open Text (HasDecimal)

/-- A processor returns from the program with the value in `rax`, at the last line and with the
stack as it was. -/
def Returns (start : State) (lines : List Line) (v : Int) : Prop :=
  ∃ s, run false start lines = .ok (s, []) ∧ s.rax = v ∧ s.stack = start.stack

/-- A processor faults in the program. -/
def FaultsIn (start : State) (lines : List Line) : Prop :=
  ∃ fault, run false start lines = .error fault

/-- **The processor and the value agree:** the program returns what the value is, and faults when
the value divides by zero. -/
def Agrees (start : State) (lines : List Line) (value : Except EvalError Int) : Prop :=
  (∀ v, Returns start lines v ↔ value = .ok v) ∧
    (FaultsIn start lines ↔ value = .error .divisionByZero)

section Program

variable {start : State} {lines : List Line} {t : Tree} {v v' : Int}

theorem Returns.not_faultsIn (h : Returns start lines v) : ¬ FaultsIn start lines := by
  obtain ⟨s, hrun, -⟩ := h
  rintro ⟨fault, hfault⟩
  cases hrun.symm.trans hfault

theorem Returns.unique (h : Returns start lines v) (h' : Returns start lines v') : v = v' := by
  obtain ⟨s, hrun, rfl, -⟩ := h
  obtain ⟨s', hrun', rfl, -⟩ := h'
  cases hrun.symm.trans hrun'
  rfl

theorem returns_program_iff (ht : t.AllNumbers HasDecimal) :
    Returns start (x64Linux.program t) v ↔ outcome? false t = some v := by
  obtain ⟨hreturn, hfault, -⟩ := run_program (w := false) ht start
  refine ⟨fun h => ?_, hreturn v⟩
  rcases houtcome : outcome? false t with _ | v'
  · exact absurd ⟨_, hfault houtcome⟩ h.not_faultsIn
  · rw [Returns.unique h (hreturn v' houtcome)]

theorem faultsIn_program_iff (ht : t.AllNumbers HasDecimal) :
    FaultsIn start (x64Linux.program t) ↔ outcome? false t = none := by
  obtain ⟨hreturn, hfault, -⟩ := run_program (w := false) ht start
  refine ⟨fun h => ?_, fun h => ⟨_, hfault h⟩⟩
  rcases houtcome : outcome? false t with _ | v
  · rfl
  · exact absurd h (Returns.not_faultsIn (hreturn v houtcome))

theorem outcome?_processor_iff :
    outcome? false t = some v ↔ t.value = .ok v ∧ ¬ t.Overflows := by
  rw [outcome?_eq_some_iff]
  simp

theorem outcome?_eq_none_iff (ht : t.AllNumbers HasDecimal) :
    outcome? false t = none ↔ t.value = .error .divisionByZero ∨ t.Overflows := by
  rw [Option.eq_none_iff_forall_ne_some]
  constructor
  · intro hnone
    rcases Tree.value_of_allNumbers ht with ⟨v, hv⟩ | hv
    · refine Or.inr (Classical.not_not.mp fun hover => ?_)
      exact hnone v (outcome?_processor_iff.mpr ⟨hv, hover⟩)
    · exact Or.inl hv
  · rintro (hv | hover) v houtcome
    · cases hv.symm.trans (outcome?_processor_iff.mp houtcome).1
    · exact (outcome?_processor_iff.mp houtcome).2 hover

end Program

/-- **The program of a source on a processor:** it returns the value of the tree unless a division
overflows, and faults if the value divides by zero or a division overflows.  So it agrees with the
value exactly if no division overflows in a tree that has a value. -/
theorem run_processor {limit : Nat} {source : String} {t : Tree}
    (h : readTree limit source = .ok t) (start : State) :
    ∃ text lines, x64Linux.lower t = .ok text ∧ readProgram text = some lines ∧
      (∀ v, Returns start lines v ↔ t.value = .ok v ∧ ¬ t.Overflows) ∧
      (FaultsIn start lines ↔ t.value = .error .divisionByZero ∨ t.Overflows) ∧
      (Agrees start lines t.value ↔ (t.Overflows → t.value = .error .divisionByZero)) := by
  have hword : t.AllNumbers IsWord := allNumbers_of_readTree h
  have ht : t.AllNumbers HasDecimal := hword.mono fun _ => Text.hasDecimal_of_isWord
  have hreturns (v : Int) :
      Returns start (x64Linux.program t) v ↔ t.value = .ok v ∧ ¬ t.Overflows := by
    rw [returns_program_iff ht, outcome?_processor_iff]
  have hfaults : FaultsIn start (x64Linux.program t) ↔
      t.value = .error .divisionByZero ∨ t.Overflows := by
    rw [faultsIn_program_iff ht, outcome?_eq_none_iff ht]
  refine ⟨_, _, lower_x64Linux ht, readProgram_program ht, hreturns, hfaults, ?_⟩
  constructor
  · exact fun hagrees hover => hagrees.2.mp (hfaults.mpr (Or.inr hover))
  · intro hcond
    refine ⟨fun v => (hreturns v).trans ⟨fun hv => hv.1, fun hv => ⟨hv, fun hover => ?_⟩⟩, ?_⟩
    · cases hv.symm.trans (hcond hover)
    · exact hfaults.trans ⟨fun hor => hor.elim id hcond, Or.inl⟩

/-- A quotient that fits. -/
theorem run_processor_quotient :
    let t : Tree := .node .div (.node .sub (.number 0 (some 0)) (.number 7 (some 1)) (some 0))
      (.number 2 (some 3)) (some 2)
    readTree nestingLimit "-7/2" = .ok t ∧ ∃ text lines, x64Linux.lower t = .ok text ∧
      readProgram text = some lines ∧ Returns ⟨1, 2, 3, [4]⟩ lines (-3) := by
  intro t
  have ht : readTree nestingLimit "-7/2" = .ok t := readTree_of_toOption (by decide +kernel)
  obtain ⟨text, lines, hlower, hread, hreturns, -⟩ := run_processor ht ⟨1, 2, 3, [4]⟩
  have hover : ¬ t.Overflows := by
    rintro ((h | h | ⟨h, -⟩) | h | ⟨-, x, y, -, hy, -, hminus⟩)
    · exact h
    · exact h
    · cases h
    · exact h
    · cases hminus.symm.trans (Except.ok.inj hy).symm
  exact ⟨ht, text, lines, hlower, hread, (hreturns (-3)).mpr ⟨rfl, hover⟩⟩

/-- **The least word divided by `-1`:** a value, and a fault. -/
theorem processor_faults_minWord :
    let t : Tree := .node .div
      (.node .sub (.node .sub (.number 0 (some 1)) (.number 9223372036854775807 (some 2)) (some 1))
        (.number 1 (some 22)) (some 21))
      (.node .sub (.number 0 (some 26)) (.number 1 (some 27)) (some 26)) (some 24)
    readTree nestingLimit "(-9223372036854775807-1)/(-1)" = .ok t ∧ t.value = .ok minWord ∧
      ∃ text lines, x64Linux.lower t = .ok text ∧ readProgram text = some lines ∧
        ∀ start, FaultsIn start lines ∧ ¬ Agrees start lines t.value := by
  intro t
  have ht : readTree nestingLimit "(-9223372036854775807-1)/(-1)" = .ok t :=
    readTree_of_toOption (by decide +kernel)
  have hvalue : t.value = .ok minWord := by rfl
  have hnum : t.AllNumbers HasDecimal := by decide
  have hnone : outcome? false t = none := by decide
  refine ⟨ht, hvalue, _, _, lower_x64Linux hnum, readProgram_program hnum, fun start => ?_⟩
  have hfaults : FaultsIn start (x64Linux.program t) := (faultsIn_program_iff hnum).mpr hnone
  refine ⟨hfaults, fun hagrees => ?_⟩
  cases hvalue.symm.trans (hagrees.2.mp hfaults)

end ArithAsm.X64
