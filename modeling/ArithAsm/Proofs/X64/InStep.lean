import ArithAsm.Assembly.Intel
import ArithAsm.Machine.Intel
import Std.Data.String.ToInt

/-!
# A program runs alike in both notations

An instruction that the machine knows does the same in both notations (`execute_toIntel`), and so
does a program of such instructions (`run_toIntel`): the two machines pass through the same states
and end alike.  Nothing is said of a line that is foreign to the machine, since it could be known to
the other one.
-/

namespace ArithAsm.X64

open Line (intelName unmarked toIntel)

variable {w : Bool} {s : State}

/-! ### Operands -/

theorem register?_unmarked {operand : String} {r : Register}
    (h : Register.ofOperand? operand = some r) : Intel.register? (unmarked operand) = some r := by
  unfold Register.ofOperand? at h
  split at h
  · exact h
  · exact h
  · exact h
  · cases h

/-- A literal does not start like a register. -/
theorem register?_eq_none_of_toInt? {text : String} {v : Int} (h : text.toInt? = some v) :
    Intel.register? text = none := by
  have hhead : text.toList.head? ≠ some 'r' := by
    intro hr
    rcases String.isInt_iff.mp (String.isInt_of_toInt?_eq_some h) with hnat | ⟨rest, rfl, -⟩
    · obtain ⟨-, hdigits, -⟩ := String.isNat_iff.mp hnat
      exact absurd (hdigits 'r' (List.mem_of_mem_head? hr)) (by decide)
    · simp at hr
  unfold Intel.register?
  split
  · exact absurd rfl hhead
  · exact absurd rfl hhead
  · exact absurd rfl hhead
  · rfl

theorem toInt?_unmarked {operand : String} {v : Int} (h : immediate? operand = some v) :
    (unmarked operand).toInt? = some v := by
  unfold immediate? at h
  unfold unmarked
  split at h
  · next digits hdigits =>
    rw [hdigits]
    exact h
  · cases h

/-! ### Instructions -/

theorem combine?_intelName {opcode : String} {f : Int → Int → Int}
    (h : combine? opcode = some f) :
    Intel.combine? (intelName opcode) = some fun target source => f source target := by
  unfold combine? at h
  split at h
  · obtain rfl := Option.some.inj h
    rfl
  · obtain rfl := Option.some.inj h
    rfl
  · obtain rfl := Option.some.inj h
    rfl
  · cases h

theorem execute_combine {name target source : String} {f : Int → Int → Int} {r r' : Register}
    (hf : Intel.combine? name = some f) (hr : Intel.register? target = some r)
    (hr' : Intel.register? source = some r') :
    Intel.execute w s name [target, source] = .ok (s.set (f (s.get r) (s.get r')) r) := by
  have hmov : name ≠ "mov" := by
    rintro rfl
    cases hf
  rw [Intel.execute, hf, hr, hr']
  exact hmov

/-- **An instruction does the same in both notations,** unless the machine does not know it. -/
theorem execute_toIntel {opcode : String} {operands : List String}
    (h : ∀ line, execute w s opcode operands ≠ .error (.illegal line)) :
    Intel.execute w s (intelName opcode) (operands.reverse.map unmarked)
      = execute w s opcode operands := by
  have hillegal {line : Line} : execute w s opcode operands ≠ .error (.illegal line) := h line
  unfold execute at hillegal ⊢
  -- one case for each instruction: push, pop, move, widening, division, the rest with two operands
  split at hillegal
  · next source =>
    rcases hr : Register.ofOperand? source with _ | r
    · rcases hv : immediate? source with _ | v
      · simp [hr, hv] at hillegal
      · have hvalue := toInt?_unmarked hv
        have hregister := register?_eq_none_of_toInt? hvalue
        by_cases hrange : -0x80000000 ≤ v ∧ v < 0x80000000
        · simp [Intel.execute, intelName, hvalue, hregister, hrange]
        · simp [hr, hv, hrange] at hillegal
    · simp [Intel.execute, intelName, register?_unmarked hr]
  · next target =>
    rcases hr : Register.ofOperand? target with _ | r
    · simp [hr] at hillegal
    · rcases hs : s.stack with _ | ⟨v, rest⟩
      · simp [Intel.execute, intelName, register?_unmarked hr, hs]
      · simp [Intel.execute, intelName, register?_unmarked hr, hs]
  · next source target =>
    rcases hv : immediate? source with _ | v
    · simp [hv] at hillegal
    rcases hr : Register.ofOperand? target with _ | r
    · simp [hv, hr] at hillegal
    · simp [Intel.execute, intelName, register?_unmarked hr, toInt?_unmarked hv]
  · rfl
  · next source =>
    rcases hr : Register.ofOperand? source with _ | r
    · simp [hr] at hillegal
    · simp [Intel.execute, intelName, register?_unmarked hr]
  · next source target hmov =>
    rcases hf : combine? opcode with _ | f
    · simp [hf] at hillegal
    rcases hr : Register.ofOperand? source with _ | r
    · simp [hf, hr] at hillegal
    rcases hr' : Register.ofOperand? target with _ | r'
    · simp [hf, hr, hr'] at hillegal
    exact execute_combine (combine?_intelName hf) (register?_unmarked hr') (register?_unmarked hr)
  · simp at hillegal

/-! ### Programs -/

theorem isDirective_intelName (opcode : String) :
    Line.isDirective (intelName opcode) = Line.isDirective opcode := by
  unfold intelName
  split <;> rfl

theorem eq_of_intelName {opcode : String} (h : intelName opcode = "ret") :
    opcode = "retq" ∨ opcode = "ret" := by
  unfold intelName at h
  split at h
  case h_9 => exact Or.inl rfl
  case h_10 => exact Or.inr h
  all_goals exact absurd h (by decide)

theorem not_ret_intelName {opcode : String} {operands : List String}
    (hret : ¬ (opcode = "retq" ∧ operands = []))
    (h : ∀ line, execute w s opcode operands ≠ .error (.illegal line)) :
    ¬ (intelName opcode = "ret" ∧ operands.reverse.map unmarked = []) := by
  rintro ⟨hname, hoperands⟩
  obtain rfl : operands = [] := by simpa using hoperands
  rcases eq_of_intelName hname with rfl | rfl
  · exact hret ⟨rfl, rfl⟩
  · exact h (.instruction "ret" []) rfl

/-- **The two machines run in step:** a program does the same in both notations, as long as the
machine knows its lines. -/
theorem run_toIntel {lines : List Line} (h : ∀ line, run w s lines ≠ .error (.illegal line)) :
    Intel.run w s (lines.map toIntel)
      = (run w s lines).map fun (last, rest) => (last, rest.map toIntel) := by
  fun_induction run w s lines with
  | case1 s => rfl
  | case2 s name rest ih => exact ih h
  | case3 s opcode operands rest hd ih =>
    rw [List.map_cons, toIntel, Intel.run, isDirective_intelName, if_pos hd]
    exact ih h
  | case4 s opcode operands rest hd hr =>
    obtain ⟨rfl, rfl⟩ := hr
    rfl
  | case5 s opcode operands rest hd hr next he ih =>
    have hknown : ∀ line, execute w s opcode operands ≠ .error (.illegal line) :=
      fun line hline => by cases he.symm.trans hline
    rw [List.map_cons, toIntel, Intel.run, isDirective_intelName, if_neg hd,
      if_neg (not_ret_intelName hr hknown), execute_toIntel hknown, he]
    exact ih h
  | case6 s opcode operands rest hd hr e he =>
    have hknown : ∀ line, execute w s opcode operands ≠ .error (.illegal line) := by
      intro line hline
      obtain rfl := Except.error.inj (he.symm.trans hline)
      exact h line rfl
    rw [List.map_cons, toIntel, Intel.run, isDirective_intelName, if_neg hd,
      if_neg (not_ret_intelName hr hknown), execute_toIntel hknown, he]
    rfl

end ArithAsm.X64
