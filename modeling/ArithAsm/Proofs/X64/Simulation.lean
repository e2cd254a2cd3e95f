import ArithAsm.Assembly.Registry
import ArithAsm.Proofs.Assembly.Code
import ArithAsm.Proofs.Assembly.ReadBack
import ArithAsm.Proofs.X64.Block

/-!
# The code of a tree on the 64-bit x86 machine

`outcome?` is the value that the code of a tree pushes, computed by recursion on the tree; it is
missing if one of the divisions faults.  The main statement is `run_code`: from any state the code
of a tree either pushes its outcome or, if there is none, faults, and it never gets below the stack
it is started with.  `run_program` says the same of the whole program of a tree, and
`readProgram_program` that the program is read back from its text.
-/

namespace ArithAsm.X64

open Backend (x64Linux)
open Text (HasDecimal)

/-! ### The outcome of a tree -/

/-- The word a machine computes from two words, unless it refuses the division. -/
def operate? (wrapsQuotient : Bool) (op : Operator) (x y : Int) : Option Int :=
  if op = .div ∧ (y = 0 ∨ ¬ (wrapsQuotient ∨ IsWord (x.tdiv y))) then none
  else some (wrap (op.exact x y))

/-- **The word that the code of a tree pushes,** if none of its divisions is refused. -/
def outcome? (wrapsQuotient : Bool) : Tree → Option Int
  | .leaf (.number value _) => some (wrap value)
  | .leaf _ => none
  | .node op left right _ => do
    let x ← outcome? wrapsQuotient left
    let y ← outcome? wrapsQuotient right
    operate? wrapsQuotient op x y

variable {w : Bool}

theorem operate?_isWord {op : Operator} {x y v : Int} (h : operate? w op x y = some v) :
    IsWord v := by
  unfold operate? at h
  split at h
  · cases h
  · rw [← Option.some.inj h]
    exact wrap_isWord _

theorem outcome?_isWord {t : Tree} {v : Int} (h : outcome? w t = some v) : IsWord v := by
  cases t with
  | leaf a =>
    cases a with
    | number value position =>
      rw [← Option.some.inj h]
      exact wrap_isWord value
    | placeholder kind => cases h
    | foreign text => cases h
  | node op left right position =>
    obtain ⟨x, -, h⟩ := Option.bind_eq_some_iff.mp h
    obtain ⟨y, -, h⟩ := Option.bind_eq_some_iff.mp h
    exact operate?_isWord h

/-! ### Literals -/

theorem immediate?_dollar (v : Int) : immediate? ("$" ++ toString v) = some v := by
  have hlist : ("$" ++ toString v).toList = '$' :: v.repr.toList := by simp
  rw [immediate?, hlist]
  simp

theorem ofOperand?_dollar (text : String) : Register.ofOperand? ("$" ++ text) = none := by
  have hne {name : String} (hname : name.toList.head? = some '%') : "$" ++ text ≠ name := by
    rintro rfl
    simp at hname
  rw [Register.ofOperand?]
  · exact hne rfl
  · exact hne rfl
  · exact hne rfl

theorem isWord_of_fitsPush {v : Int} (h : Backend.fitsPush v = true) : IsWord v := by
  simp only [Backend.fitsPush, Bool.and_eq_true, decide_eq_true_eq] at h
  unfold IsWord
  omega

theorem lines_literal {value : Int} (h : HasDecimal value) (position : Option Int) :
    (x64Linux.leaf (.number value position)).lines =
      if Backend.fitsPush value then [.instruction "pushq" ["$" ++ toString value]]
      else
        [.instruction "movabsq" ["$" ++ toString value, "%rax"],
          .instruction "pushq" ["%rax"]] := by
  simp only [Backend.leaf, Backend.const, x64Linux, Backend.numeral_of_hasDecimal h]
  change (ite _ _ _ : Emission PUnit).lines = _
  split <;> rfl

theorem leads_literal {value : Int} (h : HasDecimal value) (position : Option Int) (s : State) :
    ∃ s', s'.stack = wrap value :: s.stack ∧
      Leads w s.stack s (x64Linux.leaf (.number value position)).lines s' := by
  have hself : s.stack <:+ s.stack := List.suffix_refl _
  by_cases hfits : Backend.fitsPush value = true
  · refine ⟨{ s with stack := value :: s.stack }, ?_, ?_⟩
    · rw [wrap_eq_self (isWord_of_fitsPush hfits)]
    · rw [lines_literal h, if_pos hfits]
      refine leads_of_execute ?_ (by decide) (by decide) hself
      simp only [execute, ofOperand?_dollar, immediate?_dollar]
      have hrange : -0x80000000 ≤ value ∧ value < 0x80000000 := by
        simpa [Backend.fitsPush] using hfits
      rw [if_pos hrange]
  · refine ⟨{ s with rax := wrap value, stack := wrap value :: s.stack }, rfl, ?_⟩
    have hmovabs : Leads w s.stack s [.instruction "movabsq" ["$" ++ toString value, "%rax"]]
        { s with rax := wrap value } := by
      refine leads_of_execute ?_ (by decide) (by decide) hself
      simp only [execute, immediate?_dollar]
      rfl
    rw [lines_literal h, if_neg hfits]
    exact hmovabs.append (leads_of_execute rfl (by decide) (by decide) hself)

/-! ### Operations -/

/-- The upper half that `cqto` sets leaves the number the lower half holds. -/
theorem wide_sign {x : Int} (hx : IsWord x) : wide (if x < 0 then -1 else 0) x = x := by
  obtain ⟨h₁, h₂⟩ := hx
  have hself : x.bmod 0x100000000000000000000000000000000 = x :=
    Int.bmod_eq_of_le (by omega) (by omega)
  unfold wide
  by_cases hneg : x < 0
  · rw [if_pos hneg, show -1 * 0x10000000000000000 + x % 0x10000000000000000 = x by omega]
    exact hself
  · rw [if_neg hneg, show 0 * 0x10000000000000000 + x % 0x10000000000000000 = x by omega]
    exact hself

theorem leads_pops {s : State} {x y : Int} {rest : List Int} (hs : s.stack = y :: x :: rest) :
    Leads w rest s [x64Linux.pop x64Linux.secondary, x64Linux.pop x64Linux.primary]
      { s with rax := x, rdi := y, stack := rest } := by
  obtain ⟨rax, rdi, rdx, stack⟩ := s
  cases hs
  have hsecondary : Leads w rest ⟨rax, rdi, rdx, y :: x :: rest⟩
      [x64Linux.pop x64Linux.secondary] ⟨rax, y, rdx, x :: rest⟩ :=
    leads_of_execute rfl (by decide) (by decide) ⟨[y, x], rfl⟩
  exact hsecondary.append (leads_of_execute rfl (by decide) (by decide) ⟨[x], rfl⟩)

theorem leads_cqto (s : State) : Leads w s.stack s [.instruction "cqto" []]
    { s with rdx := if s.rax < 0 then -1 else 0 } :=
  leads_of_execute rfl (by decide) (by decide) (List.suffix_refl _)

theorem execute_idivq {s : State} (hx : IsWord s.rax) :
    execute w { s with rdx := if s.rax < 0 then -1 else 0 } "idivq" ["%rdi"]
      = if s.rdi = 0 ∨ ¬ (w ∨ IsWord (s.rax.tdiv s.rdi)) then .error .divide
        else .ok { s with rax := wrap (s.rax.tdiv s.rdi), rdx := wrap (s.rax.tmod s.rdi) } := by
  change divide w _ s.rdi = _
  unfold divide
  rw [wide_sign hx]

theorem leads_operate {s : State} {op : Operator} {v : Int} (hx : IsWord s.rax)
    (h : operate? w op s.rax s.rdi = some v) :
    ∃ s', s'.rax = v ∧ s'.stack = s.stack ∧ Leads w s.stack s (x64Linux.operate op) s' := by
  have hself : s.stack <:+ s.stack := List.suffix_refl _
  unfold operate? at h
  split at h
  · cases h
  next hdiv =>
  obtain rfl := Option.some.inj h
  cases op with
  | add =>
    exact ⟨{ s with rax := wrap (s.rax + s.rdi) }, rfl, rfl,
      leads_of_execute rfl (by decide) (by decide) hself⟩
  | sub =>
    exact ⟨{ s with rax := wrap (s.rax - s.rdi) }, rfl, rfl,
      leads_of_execute rfl (by decide) (by decide) hself⟩
  | mul =>
    exact ⟨{ s with rax := wrap (s.rax * s.rdi) }, rfl, rfl,
      leads_of_execute rfl (by decide) (by decide) hself⟩
  | div =>
    have hidivq := execute_idivq (w := w) hx
    rw [if_neg fun hfault => hdiv ⟨rfl, hfault⟩] at hidivq
    have hleads := (leads_cqto s).append (leads_of_execute hidivq (by decide) (by decide) hself)
    refine ⟨_, ?_, ?_, hleads⟩
    · rfl
    · rfl

theorem faults_operate {s : State} {op : Operator} (hx : IsWord s.rax)
    (h : operate? w op s.rax s.rdi = none) : Faults w s.stack s (x64Linux.operate op) := by
  unfold operate? at h
  split at h
  next hdiv =>
    obtain ⟨rfl, hfault⟩ := hdiv
    have hidivq := execute_idivq (w := w) hx
    rw [if_pos hfault] at hidivq
    exact (leads_cqto s).faults
      (faults_of_execute hidivq (by decide) (by decide) (List.suffix_refl _))
  · cases h

/-! ### Trees -/

/-- **The code of a tree pushes its outcome or faults,** and leaves the stack below alone. -/
theorem run_code {t : Tree} (ht : t.AllNumbers HasDecimal) (s : State) :
    (∀ v, outcome? w t = some v →
      ∃ s', s'.stack = v :: s.stack ∧ Leads w s.stack s (x64Linux.code t) s') ∧
    (outcome? w t = none → Faults w s.stack s (x64Linux.code t)) := by
  induction t generalizing s with
  | leaf a =>
    cases a with
    | number value position =>
      refine ⟨fun v hv => ?_, fun hv => by cases hv⟩
      obtain rfl := Option.some.inj hv
      exact leads_literal ht position s
    | placeholder kind => exact ht.elim
    | foreign text => exact ht.elim
  | node op left right position ihl ihr =>
    have houtcome : outcome? w (.node op left right position) = (outcome? w left).bind fun x =>
        (outcome? w right).bind fun y => operate? w op x y := rfl
    obtain ⟨hleads, hfaults⟩ := ihl ht.1 s
    rw [houtcome, Backend.code, List.append_assoc]
    -- the first of left operand, right operand and operation to fault ends the run
    rcases hx : outcome? w left with _ | x
    · exact ⟨fun v hv => (by cases hv), fun _ => (hfaults hx).append _⟩
    obtain ⟨s₁, hs₁, h₁⟩ := hleads x hx
    obtain ⟨hleads, hfaults⟩ := ihr ht.2 s₁
    have hsub : s.stack <:+ s₁.stack := hs₁ ▸ List.suffix_cons x s.stack
    rcases hy : outcome? w right with _ | y
    · refine ⟨fun v hv => (by cases hv), fun _ => ?_⟩
      exact h₁.faults (((hfaults hy).lower hsub).append _)
    obtain ⟨s₂, hs₂, h₂⟩ := hleads y hy
    rw [hs₁] at hs₂
    have hword : IsWord x := outcome?_isWord hx
    have hpops := (h₁.append (h₂.lower hsub)).append (leads_pops hs₂)
    have hcombine : x64Linux.code left ++ (x64Linux.code right ++ x64Linux.combine op)
        = x64Linux.code left ++ x64Linux.code right
          ++ [x64Linux.pop x64Linux.secondary, x64Linux.pop x64Linux.primary]
          ++ (x64Linux.operate op ++ [x64Linux.push x64Linux.primary]) := by
      simp [Backend.combine]
    rw [hcombine]
    refine ⟨fun v hv => ?_, fun hv => ?_⟩
    · obtain ⟨s₃, hrax, hs₃, h₃⟩ := leads_operate (s := ⟨x, y, s₂.rdx, s.stack⟩) hword hv
      refine ⟨{ s₃ with stack := v :: s₃.stack }, by rw [hs₃], hpops.append (h₃.append ?_)⟩
      rw [← hrax]
      exact leads_of_execute rfl (by decide) (by decide) (hs₃ ▸ List.suffix_refl _)
    · exact hpops.faults ((faults_operate (s := ⟨x, y, s₂.rdx, s.stack⟩) hword hv).append _)

/-! ### Programs -/

theorem run_return {s s' : State} {block : List Line} {v : Int} {stack : List Int}
    (h : Leads w stack s block s') (hs : s'.stack = v :: stack) :
    let lines := block ++ [x64Linux.pop x64Linux.primary, x64Linux.ret]
    run w s lines = .ok ({ s' with rax := v, stack := stack }, []) ∧
      ∀ x ∈ visited w s lines, stack <:+ x.stack := by
  have hpop : Leads w stack s' [x64Linux.pop x64Linux.primary]
      { s' with rax := v, stack := stack } := by
    obtain ⟨rax, rdi, rdx, stack'⟩ := s'
    cases hs
    exact leads_of_execute rfl (by decide) (by decide) (List.suffix_cons v stack)
  have hblock := h.append hpop
  have hlines : block ++ [x64Linux.pop x64Linux.primary, x64Linux.ret]
      = block ++ [x64Linux.pop x64Linux.primary] ++ [x64Linux.ret] := by simp
  simp only [hlines]
  refine ⟨(hblock.run_eq _).trans rfl, fun x hx => ?_⟩
  rcases hblock.above _ x hx with hx | hx
  · exact hx
  · exact List.mem_singleton.mp hx ▸ List.suffix_refl stack

theorem leads_prologue (s : State) : Leads w s.stack s x64Linux.prologue s :=
  (((leads_directive (by decide) []).append (leads_directive (by decide) ["main"])).append
    (leads_label "main") : Leads w s.stack s (([_] ++ [_]) ++ [_]) s)

/-- **The program of a tree returns its outcome or faults,** and leaves the stack below alone. -/
theorem run_program {t : Tree} (ht : t.AllNumbers HasDecimal) (s : State) :
    (∀ v, outcome? w t = some v →
      ∃ s', run w s (x64Linux.program t) = .ok (s', []) ∧ s'.rax = v ∧ s'.stack = s.stack) ∧
    (outcome? w t = none → run w s (x64Linux.program t) = .error .divide) ∧
    ∀ x ∈ visited w s (x64Linux.program t), s.stack <:+ x.stack := by
  obtain ⟨hleads, hfaults⟩ := run_code (w := w) ht s
  have hprogram : x64Linux.program t = (x64Linux.prologue ++ x64Linux.code t)
      ++ [x64Linux.pop x64Linux.primary, x64Linux.ret] := (List.append_assoc _ _ _).symm
  rw [hprogram]
  rcases houtcome : outcome? w t with _ | v
  · have h := ((leads_prologue s).faults (hfaults houtcome)).append
      [x64Linux.pop x64Linux.primary, x64Linux.ret]
    refine ⟨fun v hv => (by cases hv), fun _ => ?_, fun x hx => ?_⟩
    · rw [← List.append_nil (_ ++ _), h.run_eq]
    · exact h.above [] x (by rwa [List.append_nil])
  · obtain ⟨s', hs', h⟩ := hleads v houtcome
    obtain ⟨hrun, hvisited⟩ := run_return ((leads_prologue s).append h) hs'
    refine ⟨fun v' hv' => ?_, fun hnone => (by cases hnone), hvisited⟩
    cases hv'
    exact ⟨_, hrun, rfl, rfl⟩

/-! ### Reading a program back -/

theorem lower_x64Linux {t : Tree} (ht : t.AllNumbers HasDecimal) :
    x64Linux.lower t = .ok (programText (x64Linux.program t)) :=
  Backend.lower_eq (ht.mono fun _ => x64Linux.encodes_of_pushes)

theorem isPlain_literal {value : Int} (h : HasDecimal value) (position : Option Int) :
    ∀ line ∈ (x64Linux.leaf (.number value position)).lines, line.IsPlain := by
  have hdollar : Line.IsPlainText ("$" ++ toString value).toList := by
    intro c hc
    rw [String.toList_append, Int.toString_eq_repr] at hc
    rcases List.mem_append.mp hc with hc | hc
    · rw [List.mem_singleton.mp hc]
      decide
    · exact Line.isPlainText_repr value c hc
  have hpush : (Line.instruction "pushq" ["$" ++ toString value]).IsPlain :=
    ⟨by decide, by simpa using hdollar⟩
  have hmovabs : (Line.instruction "movabsq" ["$" ++ toString value, "%rax"]).IsPlain := by
    refine ⟨by decide, List.forall_mem_cons.mpr ⟨hdollar, by decide⟩⟩
  have hpush' : (Line.instruction "pushq" ["%rax"]).IsPlain := by decide
  rw [lines_literal h]
  split
  · exact List.forall_mem_singleton.mpr hpush
  · exact List.forall_mem_cons.mpr ⟨hmovabs, List.forall_mem_singleton.mpr hpush'⟩

theorem isPlain_code {t : Tree} (ht : t.AllNumbers HasDecimal) :
    ∀ line ∈ x64Linux.code t, line.IsPlain := by
  induction t with
  | leaf a =>
    cases a with
    | number value position => exact isPlain_literal ht position
    | placeholder kind => exact ht.elim
    | foreign text => exact ht.elim
  | node op left right position ihl ihr =>
    have hcombine : ∀ line ∈ x64Linux.combine op, line.IsPlain := by cases op <;> decide
    exact List.forall_mem_append.mpr
      ⟨List.forall_mem_append.mpr ⟨ihl ht.1, ihr ht.2⟩, hcombine⟩

/-- **The program of a tree is read back from the text it is lowered to.** -/
theorem readProgram_program {t : Tree} (ht : t.AllNumbers HasDecimal) :
    readProgram (programText (x64Linux.program t)) = some (x64Linux.program t) := by
  have hprologue : ∀ line ∈ x64Linux.prologue, line.IsPlain := by decide
  have hreturn : ∀ line ∈ [x64Linux.pop x64Linux.primary, x64Linux.ret], line.IsPlain := by decide
  have hplain : ∀ line ∈ x64Linux.program t, line.IsPlain :=
    List.forall_mem_append.mpr ⟨hprologue, List.forall_mem_append.mpr ⟨isPlain_code ht, hreturn⟩⟩
  exact readProgram_programText fun line hline => (hplain line hline).isReadable

end ArithAsm.X64
