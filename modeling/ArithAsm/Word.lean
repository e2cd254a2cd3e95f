/-!
# Signed machine words

A machine word is an integer of `[-2^63, 2^63)`.  An arithmetic result is brought back into that
range by `wrap`, which changes it by a multiple of `2^64`.  The main statements are that the result
is always a word (`wrap_isWord`), that a word is left alone (`wrap_eq_self`), and that two integers
wrap to one word exactly when they agree modulo `2^64` (`wrap_eq_wrap_iff`).
-/

namespace ArithAsm

/-- An integer a signed machine word can hold: one of `[-2^63, 2^63)`. -/
def IsWord (v : Int) : Prop :=
  -0x8000000000000000 ≤ v ∧ v < 0x8000000000000000

instance : DecidablePred IsWord := fun _ => inferInstanceAs (Decidable (_ ∧ _))

/-- **The word congruent to `v`:** the representative of `v` modulo `2^64` that lies in
`[-2^63, 2^63)`. -/
def wrap (v : Int) : Int :=
  v.bmod 0x10000000000000000

theorem wrap_isWord (v : Int) : IsWord (wrap v) := by
  have h₁ := Int.le_bmod (x := v) (m := 0x10000000000000000) (by decide)
  have h₂ := Int.bmod_lt (x := v) (m := 0x10000000000000000) (by decide)
  unfold IsWord wrap
  constructor <;> omega

theorem wrap_eq_self {v : Int} (h : IsWord v) : wrap v = v := by
  obtain ⟨h₁, h₂⟩ := h
  exact Int.bmod_eq_of_le (by omega) (by omega)

@[simp] theorem wrap_wrap (v : Int) : wrap (wrap v) = wrap v :=
  wrap_eq_self (wrap_isWord v)

theorem wrap_eq_wrap_iff {v w : Int} :
    wrap v = wrap w ↔ v % 0x10000000000000000 = w % 0x10000000000000000 := by
  unfold wrap
  constructor
  · intro h
    have hv := Int.bmod_emod (x := v) (m := 0x10000000000000000)
    have hw := Int.bmod_emod (x := w) (m := 0x10000000000000000)
    rw [h] at hv
    exact hv.symm.trans hw
  · intro h
    have hv := Int.emod_bmod (x := v) (n := 0x10000000000000000)
    have hw := Int.emod_bmod (x := w) (n := 0x10000000000000000)
    rw [← hv, ← hw]
    exact congrArg (Int.bmod · 0x10000000000000000) h

end ArithAsm
