import ArithAsm.Proofs.Arm64.Literal
import ArithAsm.Proofs.Assembly.Code
import ArithAsm.Proofs.Assembly.ReadBack

/-!
# The code of a tree on the 64-bit ARM machine

`outcome` is the residue that the code of a tree pushes, computed by recursion on the tree; no
division faults on this machine, so every tree of literals has one.  The main statement is
`leads_code`: from any state the code of a tree pushes its outcome, and never gets below the stack
it is started with.  `run_program` says the same of the whole program of a tree, and
`readProgram_program` that the program is read back from its text.
-/

namespace ArithAsm.Arm64

open Backend (arm64Darwin buildScratch)

/-! ### The outcome of a tree -/

/-- The residue a machine computes from two residues.  Only a division looks at their signs. -/
def operate (op : Operator) (x y : Nat) : Nat :=
  match op with
  | .div => residue ((wrap x).tdiv (wrap y))
  | op => residue (op.exact x y)

/-- **The residue that the code of a tree pushes.** -/
def outcome : Tree → Nat
  | .leaf (.number value _) => residue value
  | .leaf _ => 0
  | .node op left right _ => operate op (outcome left) (outcome right)

/-! ### Operations -/

variable {base s s₀ : State}

theorem leads_pop {register : String} {r : Register} {v : Nat}
    (hr : Register.ofOperand? register = some r) (hs : base.Above s)
    (hstack : s.stack = v :: s₀.stack) (hsp : s.sp = s₀.sp - 16) :
    Leads base s [arm64Darwin.pop register]
      ({ s with stack := s₀.stack, sp := s₀.sp }.set v r) := by
  have hback : s.sp + 16 = s₀.sp := by omega
  refine leads_of_execute ?_ (by decide) (by decide) hs
  simp only [execute, hr, hstack, hback]

theorem leads_push {register : String} {r : Register}
    (hr : Register.ofOperand? register = some r) (hs : base.Above s) :
    Leads base s [arm64Darwin.push register]
      { s with stack := s.get r :: s.stack, sp := s.sp - 16 } := by
  refine leads_of_execute ?_ (by decide) (by decide) hs
  simp only [execute, hr]

theorem leads_operate (op : Operator) (hs : base.Above s) :
    Leads base s (arm64Darwin.operate op) { s with x0 := operate op s.x0 s.x1 } := by
  cases op with
  | add => exact leads_of_execute rfl (by decide) (by decide) hs
  | sub => exact leads_of_execute rfl (by decide) (by decide) hs
  | mul => exact leads_of_execute rfl (by decide) (by decide) hs
  | div => exact leads_of_execute rfl (by decide) (by decide) hs

theorem leads_combine {x y : Nat} (op : Operator) (h₀ : base.Above s₀)
    (hstack : s.stack = y :: x :: s₀.stack) (hsp : s.sp = s₀.sp - 16 - 16) :
    Leads base s (arm64Darwin.combine op)
      { s with x0 := operate op x y, x1 := y, stack := operate op x y :: s₀.stack,
               sp := s₀.sp - 16 } := by
  let s₁ : State := { s with x1 := y, stack := x :: s₀.stack, sp := s₀.sp - 16 }
  let s₂ : State := { s with x0 := x, x1 := y, stack := s₀.stack, sp := s₀.sp }
  let s₃ : State := { s with x0 := operate op x y, x1 := y, stack := s₀.stack, sp := s₀.sp }
  have h₁ : base.Above s₁ := h₀.push rfl rfl
  have hstack₁ : s.stack = y :: s₁.stack := hstack
  have hsp₁ : s.sp = s₁.sp - 16 := hsp
  have h : base.Above s := h₁.push hstack₁ hsp₁
  have hsecondary : Leads base s [arm64Darwin.pop arm64Darwin.secondary] s₁ :=
    leads_pop (r := .x1) rfl h hstack₁ hsp₁
  have hprimary : Leads base s₁ [arm64Darwin.pop arm64Darwin.primary] s₂ :=
    leads_pop (r := .x0) rfl h₁ rfl rfl
  have hoperate : Leads base s₂ (arm64Darwin.operate op) s₃ := leads_operate op h₀
  have hpush : Leads base s₃ [arm64Darwin.push arm64Darwin.primary]
      { s₃ with stack := operate op x y :: s₀.stack, sp := s₀.sp - 16 } :=
    leads_push (r := .x0) rfl h₀
  exact ((hsecondary.append hprimary).append hoperate).append hpush

/-! ### Trees -/

/-- **The code of a tree pushes its outcome,** and leaves the stack below alone. -/
theorem leads_code {t : Tree} (ht : t.AllNumbers IsLiteral) (hs : base.Above s) :
    ∃ s', s'.stack = outcome t :: s.stack ∧ s'.sp = s.sp - 16 ∧
      Leads base s (arm64Darwin.code t) s' := by
  induction t generalizing s with
  | leaf a =>
    cases a with
    | number value position => exact ⟨_, rfl, rfl, leads_literal ht position hs⟩
    | placeholder kind => exact ht.elim
    | foreign text => exact ht.elim
  | node op left right position ihl ihr =>
    obtain ⟨s₁, hstack₁, hsp₁, hleft⟩ := ihl ht.1 hs
    obtain ⟨s₂, hstack₂, hsp₂, hright⟩ := ihr ht.2 (hs.push hstack₁ hsp₁)
    rw [hstack₁] at hstack₂
    rw [hsp₁] at hsp₂
    have hcombine := leads_combine op hs hstack₂ hsp₂
    exact ⟨_, rfl, rfl, (hleft.append hright).append hcombine⟩

/-! ### Programs -/

theorem leads_prologue (base s : State) : Leads base s arm64Darwin.prologue s :=
  ((((leads_directive (by decide) []).append (leads_directive (by decide) ["_main"])).append
    (leads_directive (by decide) ["2"])).append (leads_label "_main") :
      Leads base s ((([_] ++ [_]) ++ [_]) ++ [_]) s)

/-- **The program of a tree returns its outcome** in `x0`, behind its last line, with the stack and
its pointer as at the start; all the states on the way lie above the one it starts in. -/
theorem run_program {t : Tree} (ht : t.AllNumbers IsLiteral) (start : State) :
    ∃ states last, run start (arm64Darwin.program t) = .ok (states, []) ∧
      states.getLast? = some last ∧ last.x0 = outcome t ∧ last.stack = start.stack ∧
      last.sp = start.sp ∧ ∀ s ∈ states, start.Above s := by
  obtain ⟨s', hstack, hsp, hcode⟩ := leads_code ht (State.Above.refl start)
  have habove : start.Above s' := (State.Above.refl start).push hstack hsp
  let last : State := { s' with x0 := outcome t, stack := start.stack, sp := start.sp }
  have hpop : Leads start s' [arm64Darwin.pop arm64Darwin.primary] last :=
    leads_pop (r := .x0) rfl habove hstack hsp
  obtain ⟨passed, hpassed, hrun⟩ := ((leads_prologue start start).append hcode).append hpop
  have hlines : arm64Darwin.program t = arm64Darwin.prologue ++ arm64Darwin.code t
      ++ [arm64Darwin.pop arm64Darwin.primary] ++ [arm64Darwin.ret] := by
    simp [Backend.program]
  refine ⟨passed ++ [last], last, ?_, List.getLast?_concat, rfl, rfl, rfl, ?_⟩
  · rw [hlines, hrun]
    rfl
  · exact List.forall_mem_append.mpr
      ⟨hpassed, List.forall_mem_singleton.mpr (State.Above.refl start)⟩

/-! ### Reading a program back -/

theorem lower_arm64Darwin {t : Tree} (ht : t.AllNumbers IsLiteral) :
    arm64Darwin.lower t = .ok (programText (arm64Darwin.program t)) :=
  Backend.lower_eq (ht.mono fun _ hv => arm64Darwin.encodes_of_pushes hv.1)

/-- The operand of a push has a comma in it, but within brackets. -/
theorem isOperand_slot : Line.IsOperand "[SP, #-16]!".toList :=
  ⟨by decide, fun _ => rfl, by decide⟩

theorem isOperand_address : Line.IsOperand "[SP]".toList :=
  ⟨by decide, fun _ => rfl, by decide⟩

theorem isReadable_push {register : String} (h : Line.IsPlainText register.toList) :
    (arm64Darwin.push register).IsReadable :=
  ⟨by decide, List.forall_mem_cons.mpr
    ⟨Line.isOperand_of_plain h, List.forall_mem_singleton.mpr isOperand_slot⟩⟩

theorem isReadable_pop {register : String} (h : Line.IsPlainText register.toList) :
    (arm64Darwin.pop register).IsReadable :=
  ⟨by decide, List.forall_mem_cons.mpr ⟨Line.isOperand_of_plain h, List.forall_mem_cons.mpr
    ⟨isOperand_address, List.forall_mem_singleton.mpr (Line.isOperand_of_plain (by decide))⟩⟩⟩

theorem isPlainText_numbered {text : String} (h : Line.IsPlainText text.toList) (n : Nat) :
    Line.IsPlainText (text ++ toString n).toList := by
  rw [String.toList_append]
  exact List.forall_mem_append.mpr ⟨h, Line.isPlainText_repr n⟩

theorem isPlain_fieldLine (field i : Nat) : (fieldLine (field, i)).IsPlain := by
  have hregister : Line.IsPlainText "X9".toList := by decide
  have hfield : Line.IsPlainText ("#" ++ toString field).toList :=
    isPlainText_numbered (by decide) field
  cases i with
  | zero =>
    exact ⟨by decide, List.forall_mem_cons.mpr ⟨hregister, List.forall_mem_singleton.mpr hfield⟩⟩
  | succ i =>
    have hplace : Line.IsPlainText ("lsl " ++ toString (16 * (i + 1))).toList :=
      isPlainText_numbered (by decide) (16 * (i + 1))
    exact ⟨by decide, List.forall_mem_cons.mpr ⟨hregister,
      List.forall_mem_cons.mpr ⟨hfield, List.forall_mem_singleton.mpr hplace⟩⟩⟩

theorem isReadable_literal {value : Int} (h : IsLiteral value) (position : Option Int) :
    ∀ line ∈ (arm64Darwin.leaf (.number value position)).lines, line.IsReadable := by
  rw [lines_literal h, buildScratch_eq]
  refine List.forall_mem_append.mpr
    ⟨?_, List.forall_mem_singleton.mpr (isReadable_push (by decide))⟩
  intro line hline
  obtain ⟨⟨field, i⟩, -, rfl⟩ := List.mem_map.mp hline
  exact (isPlain_fieldLine field i).isReadable

theorem isReadable_combine (op : Operator) :
    ∀ line ∈ arm64Darwin.combine op, line.IsReadable := by
  have hpops : ∀ line ∈ [arm64Darwin.pop arm64Darwin.secondary,
      arm64Darwin.pop arm64Darwin.primary], line.IsReadable :=
    List.forall_mem_cons.mpr ⟨isReadable_pop (by decide),
      List.forall_mem_singleton.mpr (isReadable_pop (by decide))⟩
  have hoperate : ∀ line ∈ arm64Darwin.operate op, line.IsPlain := by cases op <;> decide
  have hpush : ∀ line ∈ [arm64Darwin.push arm64Darwin.primary], line.IsReadable :=
    List.forall_mem_singleton.mpr (isReadable_push (by decide))
  exact List.forall_mem_append.mpr ⟨List.forall_mem_append.mpr
    ⟨hpops, fun line hline => (hoperate line hline).isReadable⟩, hpush⟩

theorem isReadable_code {t : Tree} (ht : t.AllNumbers IsLiteral) :
    ∀ line ∈ arm64Darwin.code t, line.IsReadable := by
  induction t with
  | leaf a =>
    cases a with
    | number value position => exact isReadable_literal ht position
    | placeholder kind => exact ht.elim
    | foreign text => exact ht.elim
  | node op left right position ihl ihr =>
    exact List.forall_mem_append.mpr
      ⟨List.forall_mem_append.mpr ⟨ihl ht.1, ihr ht.2⟩, isReadable_combine op⟩

/-- **The program of a tree is read back from the text it is lowered to.** -/
theorem readProgram_program {t : Tree} (ht : t.AllNumbers IsLiteral) :
    readProgram (programText (arm64Darwin.program t)) = some (arm64Darwin.program t) := by
  have hprologue : ∀ line ∈ arm64Darwin.prologue, line.IsPlain := by decide
  have hreturn : ∀ line ∈ [arm64Darwin.pop arm64Darwin.primary, arm64Darwin.ret],
      line.IsReadable :=
    List.forall_mem_cons.mpr ⟨isReadable_pop (by decide),
      List.forall_mem_singleton.mpr (Line.IsPlain.isReadable (by decide))⟩
  refine readProgram_programText (List.forall_mem_append.mpr ⟨?_, ?_⟩)
  · exact fun line hline => (hprologue line hline).isReadable
  · exact List.forall_mem_append.mpr ⟨isReadable_code ht, hreturn⟩

end ArithAsm.Arm64
