import ArithAsm.Proofs.Assembly.Code

/-!
# The code of a tree step by step

A tree is computed in steps, each the push of a leaf or the operation on the two values pushed last
(`Tree.steps`).  Its code is that of its steps, one after the other, up to the first leaf for which
there is none (`expression_eq_steps`); so the error of a tree is that of this leaf, and the lines
emitted by then are those of the steps before it (`expression_eq_emitted`).  A tree has a program if
each of its leaves is a number that can be pushed (`exists_lower_iff`).
-/

namespace ArithAsm

/-- A step in the computation of a tree. -/
inductive Tree.Step where
  | push (a : Leaf)
  | combine (op : Operator)
  deriving DecidableEq, Repr

/-- **The steps in which a tree is computed:** those of the left operand, those of the right one,
and the operation. -/
def Tree.steps : Tree → List Step
  | .leaf a => [.push a]
  | .node op left right _ => left.steps ++ right.steps ++ [.combine op]

/-! ### Emissions one after the other -/

namespace Emission

variable {α β : Type}

theorem bind_of_error {lines : List Line} {e : LowerError} (next : α → Emission β) :
    (⟨lines, .error e⟩ : Emission α) >>= next = ⟨lines, .error e⟩ :=
  rfl

theorem bind_of_ok {lines : List Line} {x : α} (next : α → Emission β) :
    (⟨lines, .ok x⟩ : Emission α) >>= next = ⟨lines ++ (next x).lines, (next x).result⟩ :=
  rfl

end Emission

namespace Backend

open Emission

variable (b : Backend)

/-! ### Steps -/

/-- The code of a step. -/
def step : Tree.Step → Emission PUnit
  | .push a => b.leaf a
  | .combine op => emit (b.combine op)

/-- Why a step has no code: its leaf is no number, or one that the dialect cannot push. -/
def obstacle? : Tree.Step → Option LowerError
  | .push (.number value _) =>
    if b.dialect.Pushes value then none else some (b.dialect.refusal value)
  | .push a => some (.malformed a)
  | .combine _ => none

/-- The lines of the steps before the first one that has no code. -/
def emitted (steps : List Tree.Step) : List Line :=
  (steps.takeWhile fun s => (b.obstacle? s).isNone).flatMap fun s => (b.step s).lines

/-- The error of the first step that has no code, if there is one. -/
def firstObstacle (steps : List Tree.Step) : Except LowerError PUnit :=
  match steps.findSome? b.obstacle? with
  | some e => .error e
  | none => .ok ⟨⟩

theorem step_of_obstacle {s : Tree.Step} {e : LowerError} (h : b.obstacle? s = some e) :
    b.step s = fail e := by
  cases s with
  | push a =>
    cases a with
    | number value position =>
      obtain ⟨hvalue, rfl⟩ : ¬ b.dialect.Pushes value ∧ b.dialect.refusal value = e := by
        simpa [obstacle?] using h
      exact b.const_of_not_pushes hvalue
    | placeholder kind =>
      obtain rfl := Option.some.inj h
      rfl
    | foreign text =>
      obtain rfl := Option.some.inj h
      rfl
  | combine op => cases h

theorem step_of_no_obstacle {s : Tree.Step} (h : b.obstacle? s = none) :
    b.step s = ⟨(b.step s).lines, .ok ⟨⟩⟩ := by
  cases s with
  | push a =>
    cases a with
    | number value position =>
      have hencodes : b.Encodes value := b.encodes_of_pushes (by simpa [obstacle?] using h)
      exact congrArg (Emission.mk (b.const value).lines) hencodes
    | placeholder kind => cases h
    | foreign text => cases h
  | combine op => rfl

/-- **Steps have code up to the first obstacle.** -/
theorem forM_step (steps : List Tree.Step) :
    steps.forM b.step = ⟨b.emitted steps, b.firstObstacle steps⟩ := by
  induction steps with
  | nil => rfl
  | cons s steps ih =>
    have hcons : (s :: steps).forM b.step = (do b.step s; steps.forM b.step) := rfl
    rw [hcons, ih]
    rcases h : b.obstacle? s with _ | e
    · rw [b.step_of_no_obstacle h, bind_of_ok]
      simp [emitted, firstObstacle, h]
    · rw [b.step_of_obstacle h, fail, bind_of_error]
      simp [emitted, firstObstacle, h]

/-! ### Trees -/

/-- **The code of a tree is that of its steps.** -/
theorem expression_eq_steps (t : Tree) : b.expression t = t.steps.forM b.step := by
  induction t with
  | leaf a => rw [expression_leaf, Tree.steps]; simp [step]
  | node op left right position ihl ihr =>
    rw [expression_node, ihl, ihr, Tree.steps]
    simp [step, List.forM_append]

theorem expression_eq_emitted (t : Tree) :
    b.expression t = ⟨b.emitted t.steps, b.firstObstacle t.steps⟩ := by
  rw [expression_eq_steps, forM_step]

/-! ### Programs -/

theorem findSome?_obstacle_eq_none_iff {t : Tree} :
    t.steps.findSome? b.obstacle? = none ↔ t.AllNumbers b.dialect.Pushes := by
  induction t with
  | leaf a =>
    cases a with
    | number value position => simp [Tree.steps, obstacle?, Tree.AllNumbers]
    | placeholder kind => simp [Tree.steps, obstacle?, Tree.AllNumbers]
    | foreign text => simp [Tree.steps, obstacle?, Tree.AllNumbers]
  | node op left right position ihl ihr =>
    rw [Tree.AllNumbers, ← ihl, ← ihr, Tree.steps, List.findSome?_append, List.findSome?_append]
    simp [obstacle?]

/-- **A tree has no program for want of code for a leaf,** the first one that has none. -/
theorem lower_eq_error_iff {t : Tree} {e : LowerError} :
    b.lower t = .error e ↔ t.steps.findSome? b.obstacle? = some e := by
  rw [lower, body, expression_eq_emitted]
  rcases h : t.steps.findSome? b.obstacle? with _ | f
  · have hnone : b.firstObstacle t.steps = .ok ⟨⟩ := by rw [firstObstacle, h]
    rw [hnone, bind_of_ok]
    simp [emit, Except.map]
  · have hsome : b.firstObstacle t.steps = .error f := by rw [firstObstacle, h]
    rw [hsome, bind_of_error]
    simp [Except.map]

/-- **A tree has a program if each of its leaves is a number that the dialect can push,** and only
then. -/
theorem exists_lower_iff {t : Tree} :
    (∃ text, b.lower t = .ok text) ↔ t.AllNumbers b.dialect.Pushes := by
  constructor
  · rintro ⟨text, h⟩
    rw [← b.findSome?_obstacle_eq_none_iff, Option.eq_none_iff_forall_ne_some]
    intro e he
    cases h.symm.trans (b.lower_eq_error_iff.mpr he)
  · exact fun h => ⟨_, lower_eq (h.mono fun _ => b.encodes_of_pushes)⟩

theorem lower_number_of_digits (hb : b.dialect ≠ .arm64) {n : Nat}
    (h : Nat.pow 10 Text.maxDigits ≤ n) (position : Option Int) :
    b.lower (.number n position) = .error .tooManyDigits := by
  have hlong := Text.not_hasDecimal_natCast h
  have hobstacle : b.obstacle? (.push (.number n position)) = some .tooManyDigits := by
    rw [obstacle?]
    rcases hdialect : b.dialect
    · exact if_neg hlong
    · exact if_neg hlong
    · exact absurd hdialect hb
  rw [lower_eq_error_iff, Tree.number, Tree.steps, List.findSome?_singleton, hobstacle]

end Backend

end ArithAsm
