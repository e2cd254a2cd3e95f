import ArithAsm.Machine.Arm64

/-!
# Blocks of lines on the 64-bit ARM machine

A block of lines is run within a program, so what it does is said for every continuation.  `Leads`
says that a block takes the machine from one state to another, and that each state on the way lies
`Above` a given one: it has some values more on the stack, and the stack pointer is lower by one
slot for each of them.  Blocks are put together by `Leads.append`, and a single instruction is a
block by `leads_of_execute`.
-/

namespace ArithAsm.Arm64

/-! ### The stack and its pointer -/

/-- **The state has the stack of `base` below some more values,** and the stack pointer is lower by
a slot of 16 bytes for each of them. -/
def State.Above (base s : State) : Prop :=
  ∃ pushed : List Nat, s.stack = pushed ++ base.stack ∧ s.sp = base.sp - 16 * pushed.length

namespace State.Above

variable {base s s' : State}

theorem refl (s : State) : s.Above s :=
  ⟨[], rfl, by simp⟩

theorem push {v : Nat} (h : base.Above s) (hstack : s'.stack = v :: s.stack)
    (hsp : s'.sp = s.sp - 16) : base.Above s' := by
  obtain ⟨pushed, hs, hp⟩ := h
  refine ⟨v :: pushed, by rw [hstack, hs]; rfl, ?_⟩
  rw [hsp, hp, List.length_cons]
  omega

theorem sp_le (h : base.Above s) : s.sp ≤ base.sp ∧ 16 ∣ base.sp - s.sp := by
  obtain ⟨pushed, -, hp⟩ := h
  omega

end State.Above

/-! ### Blocks -/

/-- The result of a run that has gone through some states before. -/
def after (passed : List State) (result : Except Fault (List State × List Line)) :
    Except Fault (List State × List Line) :=
  result.map fun r => (passed ++ r.1, r.2)

@[simp] theorem after_nil (result : Except Fault (List State × List Line)) :
    after [] result = result := by
  cases result <;> rfl

theorem after_after (passed passed' : List State)
    (result : Except Fault (List State × List Line)) :
    after passed (after passed' result) = after (passed ++ passed') result := by
  cases result <;> simp [after, Except.map]

/-- **The block takes the machine from `s` to `s'`,** and the states on the way lie above the
base. -/
def Leads (base s : State) (block : List Line) (s' : State) : Prop :=
  ∃ passed, (∀ x ∈ passed, base.Above x) ∧
    ∀ rest, run s (block ++ rest) = after passed (run s' rest)

variable {base s s' s'' : State} {block block' : List Line}

theorem Leads.append (h : Leads base s block s') (h' : Leads base s' block' s'') :
    Leads base s (block ++ block') s'' := by
  obtain ⟨passed, habove, hrun⟩ := h
  obtain ⟨passed', habove', hrun'⟩ := h'
  refine ⟨passed ++ passed', List.forall_mem_append.mpr ⟨habove, habove'⟩, fun rest => ?_⟩
  rw [List.append_assoc, hrun, hrun', after_after]

theorem leads_label (name : String) : Leads base s [.label name] s :=
  ⟨[], nofun, fun rest => (after_nil (run s rest)).symm⟩

theorem leads_directive {opcode : String} (h : Line.isDirective opcode = true)
    (operands : List String) : Leads base s [.instruction opcode operands] s := by
  refine ⟨[], nofun, fun rest => ?_⟩
  rw [List.singleton_append, run, if_pos h, after_nil]

theorem leads_of_execute {opcode : String} {operands : List String}
    (he : execute s opcode operands = .ok s') (hd : Line.isDirective opcode = false)
    (hr : opcode ≠ "ret") (hs : base.Above s) :
    Leads base s [.instruction opcode operands] s' := by
  refine ⟨[s], List.forall_mem_singleton.mpr hs, fun rest => ?_⟩
  simp only [List.singleton_append, run, hd, hr, he, false_and, if_false, Bool.false_eq_true]
  rfl

end ArithAsm.Arm64
