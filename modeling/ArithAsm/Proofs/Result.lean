/-!
# Results of stages

A sequence of stages succeeds when every one of them does, whatever the errors are called.  Two runs
of it agree (`Agree`) if every stage agrees on what the stage before has left.
-/

namespace ArithAsm

section Result

variable {ε ε' α β : Type} {x : Except ε α}

theorem bind_eq_ok_iff {next : α → Except ε β} {b : β} :
    x >>= next = .ok b ↔ ∃ a, x = .ok a ∧ next a = .ok b := by
  cases x <;> simp [bind, Except.bind]

theorem mapError_eq_ok_iff {f : ε → ε'} {a : α} : x.mapError f = .ok a ↔ x = .ok a := by
  cases x with
  | error e => constructor <;> (intro h; cases h)
  | ok b => constructor <;> (intro h; cases h; rfl)

theorem eq_ok_of_toOption {a : α} (h : x.toOption = some a) : x = .ok a := by
  cases x with
  | error e => cases h
  | ok b => exact congrArg Except.ok (Option.some.inj h)

theorem exists_mapM_eq_ok {f : α → Except ε β} {xs : List α} (h : ∀ x ∈ xs, ∃ y, f x = .ok y) :
    ∃ ys, xs.mapM f = .ok ys := by
  induction xs with
  | nil => exact ⟨[], rfl⟩
  | cons x xs ih =>
    obtain ⟨y, hy⟩ := h x List.mem_cons_self
    obtain ⟨ys, hys⟩ := ih fun x' hx' => h x' (List.mem_cons_of_mem x hx')
    refine ⟨y :: ys, ?_⟩
    rw [List.mapM_cons, hy, hys]
    rfl

/-- **Two results agree:** both are values that `R` relates, or both are errors that `E` relates. -/
inductive Agree (E : ε → ε → Prop) (R : α → α → Prop) : Except ε α → Except ε α → Prop
  | ok {a b : α} (h : R a b) : Agree E R (.ok a) (.ok b)
  | error {e e' : ε} (h : E e e') : Agree E R (.error e) (.error e')

namespace Agree

variable {E : ε → ε → Prop} {E' : ε' → ε' → Prop} {R : α → α → Prop} {S : β → β → Prop}
  {y z : Except ε α}

theorem bind {next next' : α → Except ε β} (h : Agree E R x y)
    (h' : ∀ a b, R a b → Agree E S (next a) (next' b)) :
    Agree E S (x >>= next) (y >>= next') := by
  cases h with
  | ok h => exact h' _ _ h
  | error h => exact .error h

theorem mapError {f : ε → ε'} (h : Agree E R x y) (hf : ∀ e e', E e e' → E' (f e) (f e')) :
    Agree E' R (x.mapError f) (y.mapError f) := by
  cases h with
  | ok h => exact .ok h
  | error h => exact .error (hf _ _ h)

theorem symm (h : Agree E R x y) (hE : ∀ {e e'}, E e e' → E e' e)
    (hR : ∀ {a b}, R a b → R b a) : Agree E R y x := by
  cases h with
  | ok h => exact .ok (hR h)
  | error h => exact .error (hE h)

theorem trans (h : Agree E R x y) (h' : Agree E R y z)
    (hE : ∀ {e₁ e₂ e₃}, E e₁ e₂ → E e₂ e₃ → E e₁ e₃)
    (hR : ∀ {a b c}, R a b → R b c → R a c) : Agree E R x z := by
  cases h with
  | ok h =>
    cases h' with
    | ok h' => exact .ok (hR h h')
  | error h =>
    cases h' with
    | error h' => exact .error (hE h h')

end Agree

end Result

end ArithAsm
