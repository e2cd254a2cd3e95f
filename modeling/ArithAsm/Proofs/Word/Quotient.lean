import ArithAsm.Word

/-!
# Quotients of words

The truncated quotient of two words is a word, with one exception: the least word divided by `-1`
(`isWord_tdiv_iff`).
-/

namespace ArithAsm

/-- The least word, `-2^63`. -/
def minWord : Int :=
  -0x8000000000000000

/-- A division of `x` by `y` has no quotient among the words, though `y` is not zero. -/
def QuotientOverflows (x y : Int) : Prop :=
  x = minWord ∧ y = -1

instance : DecidableRel QuotientOverflows := fun _ _ => inferInstanceAs (Decidable (_ ∧ _))

/-- **The quotient of words is a word** unless the division overflows. -/
theorem isWord_tdiv_iff {x y : Int} (hx : IsWord x) :
    IsWord (x.tdiv y) ↔ ¬ QuotientOverflows x y := by
  have habs : (x.tdiv y).natAbs = x.natAbs / y.natAbs := Int.natAbs_tdiv x y
  unfold IsWord QuotientOverflows minWord at *
  by_cases hone : y = -1
  · subst hone
    rw [Int.tdiv_neg, Int.tdiv_one]
    omega
  by_cases htwo : 2 ≤ y.natAbs
  · -- at least halved, the quotient is far from both ends
    have hhalf : x.natAbs / y.natAbs ≤ x.natAbs / 2 := Nat.div_le_div_left htwo (by decide)
    omega
  · obtain rfl | rfl : y = 0 ∨ y = 1 := by omega
    · rw [Int.tdiv_zero]
      omega
    · rw [Int.tdiv_one]
      omega

end ArithAsm
