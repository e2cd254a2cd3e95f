import ArithAsm.Machine.X64

/-!
# Blocks of lines on the 64-bit x86 machine

A block of lines is run within a program, so what it does is said for every continuation.  `Leads`
says that a block takes the machine from one state to another, and `Faults` that the machine meets
a division it refuses; both also say that the stack never gets below a given `floor` on the way.
Blocks are put together by `Leads.append` and `Leads.faults`, and a single instruction is a block by
`leads_of_execute` and `faults_of_execute`.
-/

namespace ArithAsm.X64

variable {w : Bool} {floor : List Int} {s s' s'' : State} {block block' : List Line}

/-- **The block takes the machine from `s` to `s'`,** and the stack never gets below the floor. -/
structure Leads (w : Bool) (floor : List Int) (s : State) (block : List Line) (s' : State) :
    Prop where
  run_eq : ∀ rest, run w s (block ++ rest) = run w s' rest
  above : ∀ rest, ∀ x ∈ visited w s (block ++ rest), floor <:+ x.stack ∨ x ∈ visited w s' rest

/-- **The block ends the run from `s` at a division,** and the stack never gets below the floor. -/
structure Faults (w : Bool) (floor : List Int) (s : State) (block : List Line) : Prop where
  run_eq : ∀ rest, run w s (block ++ rest) = .error .divide
  above : ∀ rest, ∀ x ∈ visited w s (block ++ rest), floor <:+ x.stack

/-! ### Putting blocks together -/

theorem Leads.append (h : Leads w floor s block s') (h' : Leads w floor s' block' s'') :
    Leads w floor s (block ++ block') s'' where
  run_eq rest := by rw [List.append_assoc, h.run_eq, h'.run_eq]
  above rest x hx := by
    rw [List.append_assoc] at hx
    rcases h.above _ x hx with hx | hx
    · exact Or.inl hx
    · exact h'.above rest x hx

theorem Leads.faults (h : Leads w floor s block s') (h' : Faults w floor s' block') :
    Faults w floor s (block ++ block') where
  run_eq rest := by rw [List.append_assoc, h.run_eq, h'.run_eq]
  above rest x hx := by
    rw [List.append_assoc] at hx
    rcases h.above _ x hx with hx | hx
    · exact hx
    · exact h'.above rest x hx

theorem Faults.append (h : Faults w floor s block) (block' : List Line) :
    Faults w floor s (block ++ block') where
  run_eq rest := by rw [List.append_assoc, h.run_eq]
  above rest x hx := h.above (block' ++ rest) x (by rwa [List.append_assoc] at hx)

theorem Leads.lower {floor' : List Int} (h : Leads w floor s block s') (hf : floor' <:+ floor) :
    Leads w floor' s block s' where
  run_eq := h.run_eq
  above rest x hx := (h.above rest x hx).imp_left hf.trans

theorem Faults.lower {floor' : List Int} (h : Faults w floor s block) (hf : floor' <:+ floor) :
    Faults w floor' s block where
  run_eq := h.run_eq
  above rest x hx := hf.trans (h.above rest x hx)

/-! ### Blocks of one line -/

theorem leads_label (name : String) : Leads w floor s [.label name] s where
  run_eq _ := rfl
  above _ _ hx := Or.inr hx

theorem leads_directive {opcode : String} (h : Line.isDirective opcode = true)
    (operands : List String) : Leads w floor s [.instruction opcode operands] s where
  run_eq rest := by rw [List.singleton_append, run, if_pos h]
  above rest x hx := by
    rw [List.singleton_append, visited, if_pos h] at hx
    exact Or.inr hx

variable {opcode : String} {operands : List String}

theorem leads_of_execute (he : execute w s opcode operands = .ok s')
    (hd : Line.isDirective opcode = false) (hr : opcode ≠ "retq") (hf : floor <:+ s.stack) :
    Leads w floor s [.instruction opcode operands] s' where
  run_eq rest := by simp [run, hd, hr, he]
  above rest x hx := by
    simp only [List.singleton_append, visited, hd, hr, he, false_and, if_false, Bool.false_eq_true,
      List.mem_cons] at hx
    rcases hx with rfl | hx
    · exact Or.inl hf
    · exact Or.inr hx

theorem faults_of_execute (he : execute w s opcode operands = .error .divide)
    (hd : Line.isDirective opcode = false) (hr : opcode ≠ "retq") (hf : floor <:+ s.stack) :
    Faults w floor s [.instruction opcode operands] where
  run_eq rest := by simp [run, hd, hr, he]
  above rest x hx := by
    simp only [List.singleton_append, visited, hd, hr, he, false_and, if_false, Bool.false_eq_true,
      List.mem_singleton] at hx
    rw [hx]
    exact hf

end ArithAsm.X64
