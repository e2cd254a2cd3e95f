import ArithAsm.Proofs.Assembly.Steps
import ArithAsm.Proofs.X64.Correctness
import ArithAsm.Proofs.X64.InStep

/-!
# One program in two notations

The two backends for x86 fail at the same leaf, and the lines that one of them emits are those of
the other one in the other notation (`expression_x64Intel`).  Their programs do the same
(`run_x64Intel`), each on the machine that reads its notation.  The main statement,
`lower_corresponds`, has both of the texts.  A number that cannot be written has no program in
either notation (`not_lower_of_long_number`).
-/

namespace ArithAsm.X64

open Backend (x64Linux x64Intel)
open Line (toIntel intelName unmarked)
open Text (HasDecimal)

/-! ### Steps -/

theorem obstacle?_x64Intel : x64Intel.obstacle? = x64Linux.obstacle? := by
  funext s
  cases s with
  | push a => cases a <;> rfl
  | combine op => rfl

theorem lines_literal_x64Intel {value : Int} (h : HasDecimal value) (position : Option Int) :
    (x64Intel.leaf (.number value position)).lines =
      if Backend.fitsPush value then [.instruction "push" [toString value]]
      else [.instruction "mov" ["rax", toString value], .instruction "push" ["rax"]] := by
  simp only [Backend.leaf, Backend.const, x64Intel, Backend.numeral_of_hasDecimal h]
  change (ite _ _ _ : Emission PUnit).lines = _
  split <;> rfl

theorem lines_step_x64Intel (s : Tree.Step) :
    (x64Intel.step s).lines = (x64Linux.step s).lines.map toIntel := by
  cases s with
  | push a =>
    cases a with
    | number value position =>
      by_cases hdecimal : HasDecimal value
      case neg =>
        -- neither backend writes a line for it
        have hatt : x64Linux.const value = _ := x64Linux.const_of_not_pushes hdecimal
        have hintel : x64Intel.const value = _ := x64Intel.const_of_not_pushes hdecimal
        rw [Backend.step, Backend.step, Backend.leaf, Backend.leaf, hatt, hintel]
        rfl
      have hliteral := Line.unmarked_literal (toString value)
      have hpush : toIntel (.instruction "pushq" ["$" ++ toString value])
          = .instruction "push" [toString value] :=
        congrArg (fun o => Line.instruction "push" [o]) hliteral
      have hmov : toIntel (.instruction "movabsq" ["$" ++ toString value, "%rax"])
          = .instruction "mov" ["rax", toString value] :=
        congrArg (fun o => Line.instruction "mov" ["rax", o]) hliteral
      have hregister : toIntel (.instruction "pushq" ["%rax"]) = .instruction "push" ["rax"] := rfl
      rw [Backend.step, Backend.step, lines_literal_x64Intel hdecimal, lines_literal hdecimal]
      split
      · rw [List.map_singleton, hpush]
      · rw [List.map_cons, List.map_singleton, hmov, hregister]
    | placeholder kind => rfl
    | foreign text => rfl
  | combine op => cases op <;> decide

/-! ### Trees -/

/-- **The code of a tree is one in both notations,** and ends early at the same leaf. -/
theorem expression_x64Intel (t : Tree) :
    x64Intel.expression t
      = ⟨(x64Linux.expression t).lines.map toIntel, (x64Linux.expression t).result⟩ := by
  rw [Backend.expression_eq_emitted, Backend.expression_eq_emitted]
  simp only [Backend.emitted, Backend.firstObstacle, obstacle?_x64Intel, lines_step_x64Intel,
    List.map_flatMap]

theorem code_x64Intel (t : Tree) : x64Intel.code t = (x64Linux.code t).map toIntel := by
  induction t with
  | leaf a => exact lines_step_x64Intel (.push a)
  | node op left right position ihl ihr =>
    have hcombine : x64Intel.combine op = (x64Linux.combine op).map toIntel :=
      lines_step_x64Intel (.combine op)
    rw [Backend.code, Backend.code, ihl, ihr, hcombine, List.map_append, List.map_append]

theorem drop_program_x64Intel (t : Tree) :
    (x64Intel.program t).drop 3 = ((x64Linux.program t).drop 3).map toIntel := by
  have hreturn : [x64Intel.pop x64Intel.primary, x64Intel.ret]
      = [x64Linux.pop x64Linux.primary, x64Linux.ret].map toIntel := by decide
  have hatt : (x64Linux.program t).drop 3
      = x64Linux.code t ++ [x64Linux.pop x64Linux.primary, x64Linux.ret] := rfl
  have hintel : (x64Intel.program t).drop 3
      = x64Intel.code t ++ [x64Intel.pop x64Intel.primary, x64Intel.ret] := rfl
  rw [hatt, hintel, code_x64Intel, hreturn, List.map_append]

/-! ### Texts -/

theorem isPlainText_unmarked {operand : String} (h : Line.IsPlainText operand.toList) :
    Line.IsPlainText (unmarked operand).toList := by
  unfold unmarked
  split
  · next rest hrest =>
    rw [String.toList_ofList]
    exact fun c hc => h c (hrest ▸ List.mem_cons_of_mem _ hc)
  · next rest hrest =>
    rw [String.toList_ofList]
    exact fun c hc => h c (hrest ▸ List.mem_cons_of_mem _ hc)
  · exact h

theorem isPlain_toIntel {line : Line} (h : line.IsPlain) : line.toIntel.IsPlain := by
  cases line with
  | label name => exact h
  | instruction opcode operands =>
    obtain ⟨hopcode, hoperands⟩ := h
    refine ⟨?_, fun o ho => ?_⟩
    · unfold intelName
      split
      -- the name of an instruction that is in neither notation stays
      case h_10 => exact hopcode
      all_goals decide
    · obtain ⟨o', ho', rfl⟩ := List.mem_map.mp ho
      exact isPlainText_unmarked (hoperands o' (List.mem_reverse.mp ho'))

/-! ### Programs -/

/-- **The program of a tree is read back in the other notation, too.** -/
theorem readProgram_x64Intel {t : Tree} (ht : t.AllNumbers HasDecimal) :
    readProgram (programText (x64Intel.program t)) = some (x64Intel.program t) := by
  have hprologue : ∀ line ∈ x64Intel.prologue, line.IsPlain := by decide
  have hreturn : ∀ line ∈ [x64Intel.pop x64Intel.primary, x64Intel.ret], line.IsPlain := by decide
  have hcode : ∀ line ∈ x64Intel.code t, line.IsPlain := by
    rw [code_x64Intel]
    exact List.forall_mem_map.mpr fun line hline => isPlain_toIntel (isPlain_code ht line hline)
  have hplain : ∀ line ∈ x64Intel.program t, line.IsPlain :=
    List.forall_mem_append.mpr ⟨hprologue, List.forall_mem_append.mpr ⟨hcode, hreturn⟩⟩
  exact readProgram_programText fun line hline => (hplain line hline).isReadable

/-- On a machine that wraps quotients, the program computes the value whatever the literals are. -/
theorem computes_program {t : Tree} (ht : t.AllNumbers HasDecimal) (start : State) :
    Computes start t.value (run true start (x64Linux.program t)) := by
  obtain ⟨hreturn, hfault, -⟩ := run_program (w := true) ht start
  rcases houtcome : outcome? true t with _ | v
  · have hvalue : t.value = .error .divisionByZero := by
      refine (Tree.value_of_allNumbers ht).resolve_left ?_
      rintro ⟨v, hv⟩
      cases houtcome.symm.trans (outcome?_eq_some_iff.mpr ⟨hv, Or.inl rfl⟩)
    rw [hvalue]
    exact ⟨rfl, hfault houtcome⟩
  · rw [(outcome?_eq_some_iff.mp houtcome).1]
    exact hreturn v houtcome

theorem Computes.toIntel {start : State} {value : Except EvalError Int}
    {result : Except Fault (State × List Line)} (h : Computes start value result) :
    Computes start value (result.map fun (last, rest) => (last, rest.map toIntel)) := by
  rcases value with e | v
  · obtain ⟨he, rfl⟩ := h
    exact ⟨he, rfl⟩
  · obtain ⟨s, rfl, hrax, hstack⟩ := h
    exact ⟨s, rfl, hrax, hstack⟩

theorem known_program {t : Tree} (ht : t.AllNumbers HasDecimal) (w : Bool) (start : State) :
    ∀ line, run w start (x64Linux.program t) ≠ .error (.illegal line) := by
  obtain ⟨hreturn, hfault, -⟩ := run_program (w := w) ht start
  intro line hline
  rcases houtcome : outcome? w t with _ | v
  · cases (hfault houtcome).symm.trans hline
  · obtain ⟨s, hrun, -⟩ := hreturn v houtcome
    cases hrun.symm.trans hline

/-- **The programs of a tree do the same,** from any state and on either machine. -/
theorem run_x64Intel {t : Tree} (ht : t.AllNumbers HasDecimal) (w : Bool) (start : State) :
    Intel.run w start (x64Intel.program t)
      = (run w start (x64Linux.program t)).map fun (last, rest) => (last, rest.map toIntel) := by
  -- no line of either prologue does anything
  have hatt : run w start (x64Linux.program t) = run w start ((x64Linux.program t).drop 3) := rfl
  have hintel : Intel.run w start (x64Intel.program t)
      = Intel.run w start ((x64Intel.program t).drop 3) := rfl
  have hknown := known_program ht w start
  rw [hatt] at hknown
  rw [hatt, hintel, drop_program_x64Intel]
  exact run_toIntel hknown

/-- **Two programs are one in the two notations:** they have equally many lines, and the lines
behind the first three of one are those of the other one in the other notation. -/
structure Corresponds (lines lines' : List Line) : Prop where
  length_eq : lines'.length = lines.length
  drop_eq : lines'.drop 3 = (lines.drop 3).map toIntel

theorem corresponds_program (t : Tree) :
    Corresponds (x64Linux.program t) (x64Intel.program t) where
  length_eq := by
    have hprologue : x64Intel.prologue.length = x64Linux.prologue.length := rfl
    simp only [Backend.program, List.length_append, hprologue, code_x64Intel, List.length_map]
    rfl
  drop_eq := drop_program_x64Intel t

theorem lower_error_of_obstacle {t : Tree} {e : LowerError}
    (h : t.steps.findSome? x64Linux.obstacle? = some e) :
    x64Linux.lower t = .error e ∧ x64Intel.lower t = .error e := by
  refine ⟨(Backend.lower_eq_error_iff _).mpr h, (Backend.lower_eq_error_iff _).mpr ?_⟩
  rw [obstacle?_x64Intel]
  exact h

/-- A tree with another leaf than numbers that can be written fails in both backends, and at the
same leaf. -/
theorem exists_obstacle {t : Tree} (ht : ¬ t.AllNumbers HasDecimal) :
    ∃ e, t.steps.findSome? x64Linux.obstacle? = some e ∧ x64Linux.lower t = .error e ∧
      x64Intel.lower t = .error e := by
  have hsome : t.steps.findSome? x64Linux.obstacle? ≠ none := by
    rwa [Ne, Backend.findSome?_obstacle_eq_none_iff]
  obtain ⟨e, he⟩ := Option.ne_none_iff_exists'.mp hsome
  exact ⟨e, he, lower_error_of_obstacle he⟩

theorem exists_malformed {t : Tree} (ht : ¬ t.AllNumbers fun _ => True)
    (hnumbers : ∀ v p, .push (.number v p) ∈ t.steps → HasDecimal v) :
    ∃ a, x64Linux.lower t = .error (.malformed a) ∧ x64Intel.lower t = .error (.malformed a) := by
  obtain ⟨e, he, hlower⟩ := exists_obstacle fun h => ht (h.mono fun _ _ => trivial)
  obtain ⟨s, hs, hobstacle⟩ := List.exists_of_findSome?_eq_some he
  cases s with
  | combine op => cases hobstacle
  | push a =>
    cases a with
    | number v p => cases hobstacle.symm.trans (if_pos (hnumbers v p hs))
    | placeholder kind =>
      obtain rfl := Option.some.inj hobstacle
      exact ⟨_, hlower⟩
    | foreign text =>
      obtain rfl := Option.some.inj hobstacle
      exact ⟨_, hlower⟩

theorem lower_x64Intel {t : Tree} (ht : t.AllNumbers HasDecimal) :
    x64Intel.lower t = .ok (programText (x64Intel.program t)) :=
  Backend.lower_eq (ht.mono fun _ => x64Intel.encodes_of_pushes)

/-- **The two backends for x86 write one program.**  They emit the same lines in their two notations
for every tree, and fail for the same reason, at the first leaf that is no number or has too many
digits to be written; if there is no such number, it is a leaf that is no number at all.  The
programs of any other tree can be read back from their texts, and correspond line by line.  They do
the same on either machine, and on one that wraps quotients both compute the value of the tree. -/
theorem lower_corresponds (t : Tree) :
    x64Intel.expression t
        = ⟨(x64Linux.expression t).lines.map toIntel, (x64Linux.expression t).result⟩ ∧
    (¬ t.AllNumbers HasDecimal →
      ∃ e, t.steps.findSome? x64Linux.obstacle? = some e ∧ x64Linux.lower t = .error e ∧
        x64Intel.lower t = .error e) ∧
    (¬ t.AllNumbers (fun _ => True) →
      (∀ v p, .push (.number v p) ∈ t.steps → HasDecimal v) →
      ∃ a, x64Linux.lower t = .error (.malformed a) ∧
        x64Intel.lower t = .error (.malformed a)) ∧
    (t.AllNumbers HasDecimal →
      ∃ lines lines', x64Linux.lower t = .ok (programText lines) ∧
        x64Intel.lower t = .ok (programText lines') ∧
        readProgram (programText lines) = some lines ∧
        readProgram (programText lines') = some lines' ∧
        Corresponds lines lines' ∧
        (∀ w start, Intel.run w start lines'
          = (run w start lines).map fun (last, rest) => (last, rest.map toIntel)) ∧
        ∀ start, Computes start t.value (run true start lines) ∧
          Computes start t.value (Intel.run true start lines')) := by
  refine ⟨expression_x64Intel t, exists_obstacle, exists_malformed, fun ht => ?_⟩
  refine ⟨_, _, lower_x64Linux ht, lower_x64Intel ht, readProgram_program ht,
    readProgram_x64Intel ht, corresponds_program t, run_x64Intel ht, fun start => ?_⟩
  have hcomputes := computes_program ht start
  refine ⟨hcomputes, ?_⟩
  rw [run_x64Intel ht]
  exact hcomputes.toIntel

/-- A literal that a push cannot hold, with a difference and a quotient whose operands must not be
swapped, and a tree with a text in place of a number. -/
theorem lower_corresponds_quotient :
    let t : Tree := .node .div (.node .sub (.number 5 none) (.number 4294967296 none) none)
      (.number (-3) none) none
    let malformed : Tree := .node .add (.number 1 none) (.leaf (.foreign "x")) none
    t.AllNumbers HasDecimal ∧ (¬ malformed.AllNumbers fun _ => True) ∧
    (∃ lines lines' s s', x64Linux.lower t = .ok (programText lines) ∧
      x64Intel.lower t = .ok (programText lines') ∧ Corresponds lines lines' ∧
      run true ⟨1, 2, 3, [7]⟩ lines = .ok (s, []) ∧ s.rax = 1431655763 ∧ s.stack = [7] ∧
      Intel.run true ⟨1, 2, 3, [7]⟩ lines' = .ok (s', []) ∧ s'.rax = 1431655763 ∧
      s'.stack = [7]) ∧
    ∃ a, x64Linux.lower malformed = .error (.malformed a) ∧
      x64Intel.lower malformed = .error (.malformed a) := by
  intro t malformed
  have ht : t.AllNumbers HasDecimal := by decide
  have hmalformed : ¬ malformed.AllNumbers fun _ => True := by decide
  have hnumbers : ∀ v p, Tree.Step.push (.number v p) ∈ malformed.steps → HasDecimal v := by
    intro v p h
    obtain ⟨rfl, -⟩ : v = 1 ∧ p = none := by simpa [malformed, Tree.steps, Tree.number] using h
    decide
  obtain ⟨lines, lines', hatt, hintel, -, -, hcorresponds, -, hcomputes⟩ :=
    (lower_corresponds t).2.2.2 ht
  have hvalue : t.value = .ok 1431655763 := by rfl
  obtain ⟨hrun, hrun'⟩ := hcomputes ⟨1, 2, 3, [7]⟩
  rw [hvalue] at hrun hrun'
  obtain ⟨s, hrun, hrax, hstack⟩ := hrun
  obtain ⟨s', hrun', hrax', hstack'⟩ := hrun'
  exact ⟨ht, hmalformed,
    ⟨lines, lines', s, s', hatt, hintel, hcorresponds, hrun, hrax, hstack, hrun', hrax', hstack'⟩,
    (lower_corresponds malformed).2.2.1 hmalformed hnumbers⟩

/-- **A number with no program to compare:** both backends fail to write it. -/
theorem not_lower_of_long_number :
    let t : Tree := .number (Nat.pow 10 Text.maxDigits : Nat) none
    t.AllNumbers (fun _ => True) ∧ (∀ text, x64Linux.lower t ≠ .ok text) ∧
      ∀ text, x64Intel.lower t ≠ .ok text := by
  intro t
  have hlower {b : Backend} (hb : b.dialect ≠ .arm64) (text : String) : b.lower t ≠ .ok text := by
    intro h
    have herror := b.lower_number_of_digits hb (Nat.le_refl (Nat.pow 10 Text.maxDigits)) none
    cases herror.symm.trans h
  exact ⟨trivial, hlower nofun, hlower nofun⟩

end ArithAsm.X64
