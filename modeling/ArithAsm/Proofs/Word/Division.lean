import ArithAsm.Operator
import ArithAsm.Proofs.Word.Quotient

/-!
# Division

A quotient can be had from the sizes of the operands and then from their signs
(`tdiv_eq_signedQuotient`), and it is the only one that leaves no remainder, or a remainder with the
sign of the dividend (`isTruncatedQuotient_iff`).  On words this is the signed division of bit
vectors (`apply_div_wrap`).  The main statement, `apply_div`, sets the one pair of words apart whose
quotient is no word.
-/

namespace ArithAsm

variable {x y q : Int}

/-! ### The truncated quotient -/

/-- The quotient of the sizes, with its sign changed if only one of the operands is negative. -/
def signedQuotient (x y : Int) : Int :=
  let size : Int := (x.natAbs / y.natAbs : Nat)
  if x < 0 ↔ y < 0 then size else -size

theorem tdiv_eq_signedQuotient (x y : Int) : x.tdiv y = signedQuotient x y := by
  unfold signedQuotient
  cases x with
  | ofNat m =>
    have hm : ¬ Int.ofNat m < 0 := Int.not_lt.mpr (Int.natCast_nonneg m)
    cases y with
    | ofNat n => exact (if_pos (iff_of_false hm (Int.not_lt.mpr (Int.natCast_nonneg n)))).symm
    | negSucc n => exact (if_neg fun h => hm (h.mpr (Int.negSucc_lt_zero n))).symm
  | negSucc m =>
    have hm : Int.negSucc m < 0 := Int.negSucc_lt_zero m
    cases y with
    | ofNat n => exact (if_neg fun h => Int.not_lt.mpr (Int.natCast_nonneg n) (h.mp hm)).symm
    | negSucc n => exact (if_pos (iff_of_true hm (Int.negSucc_lt_zero n))).symm

/-- Dividing `x` by `y` gives `q` and a remainder that is smaller than the divisor in size, and is
zero or of the sign of the dividend. -/
def IsTruncatedQuotient (x y q : Int) : Prop :=
  ∃ r, x = q * y + r ∧ r.natAbs < y.natAbs ∧ (r = 0 ∨ r.sign = x.sign)

theorem isTruncatedQuotient_tdiv (x : Int) (hy : y ≠ 0) :
    IsTruncatedQuotient x y (x.tdiv y) := by
  refine ⟨x.tmod y, (Int.tdiv_mul_add_tmod x y).symm, ?_, ?_⟩
  · rw [Int.natAbs_tmod]
    exact Nat.mod_lt _ (Int.natAbs_pos.mpr hy)
  · by_cases hdvd : y ∣ x
    · exact Or.inl (Int.tmod_eq_zero_of_dvd hdvd)
    · exact Or.inr ((Int.sign_tmod x y).trans (if_neg hdvd))

/-- **There is one truncated quotient,** whatever the signs of the operands are. -/
theorem isTruncatedQuotient_iff (hy : y ≠ 0) : IsTruncatedQuotient x y q ↔ q = x.tdiv y := by
  constructor
  · rintro ⟨r, hx, hsize, hsign⟩
    have hsum : r + y * q = x := by rw [hx, Int.mul_comm, Int.add_comm]
    rcases Int.le_total 0 x with hpos | hneg
    · have hr : 0 ≤ r := by
        rcases hsign with rfl | hsign
        · exact Int.le_refl 0
        · exact Int.sign_nonneg_iff.mp (hsign ▸ Int.sign_nonneg_iff.mpr hpos)
      exact ((Int.tdiv_tmod_unique hpos hy).mpr ⟨hsum, hr, by omega⟩).1.symm
    · have hr : r ≤ 0 := by
        rcases hsign with rfl | hsign
        · exact Int.le_refl 0
        · exact Int.sign_nonpos_iff.mp (hsign ▸ Int.sign_nonpos_iff.mpr hneg)
      exact ((Int.tdiv_tmod_unique' hneg hy).mpr ⟨hsum, by omega, hr⟩).1.symm
  · rintro rfl
    exact isTruncatedQuotient_tdiv x hy

/-! ### The operator -/

namespace Operator

theorem apply_div_of_ne_zero (x : Int) (hy : y ≠ 0) : div.apply x y = .ok (wrap (x.tdiv y)) :=
  if_neg fun h => hy h.2

theorem apply_div_of_isWord (hx : IsWord x) (hy : y ≠ 0) :
    div.apply x y = .ok (if QuotientOverflows x y then minWord else x.tdiv y) := by
  rw [apply_div_of_ne_zero x hy]
  split
  · next hoverflows =>
    obtain ⟨rfl, rfl⟩ := hoverflows
    rfl
  · next hfits => rw [wrap_eq_self ((isWord_tdiv_iff hx).mpr hfits)]

/-- On words, the division is that of bit vectors in two's complement. -/
theorem apply_div_wrap (x : Int) (hy : wrap y ≠ 0) :
    div.apply (wrap x) (wrap y)
      = .ok ((BitVec.ofInt 64 x).sdiv (BitVec.ofInt 64 y)).toInt := by
  rw [apply_div_of_ne_zero _ hy, BitVec.toInt_sdiv, BitVec.toInt_ofInt, BitVec.toInt_ofInt]
  rfl

/-- **Division truncates toward zero, and overflows in one place only.**  It fails on the divisor
zero and nowhere else.  Otherwise there is exactly one truncated quotient, and the result is the
word it wraps to.  The quotient of two words is a word itself, except for that of the least word by
`-1`, which wraps to the least word.  On words, this is the signed division in two's complement. -/
theorem apply_div (x y : Int) :
    (∀ e, div.apply x y = .error e ↔ y = 0 ∧ e = .divisionByZero) ∧
    (y ≠ 0 → ∃ q, (∀ q', IsTruncatedQuotient x y q' ↔ q' = q) ∧ q = signedQuotient x y ∧
      div.apply x y = .ok (wrap q) ∧
      (IsWord x → IsWord y → (IsWord q ↔ ¬ QuotientOverflows x y) ∧
        div.apply x y = .ok (if QuotientOverflows x y then minWord else q))) ∧
    (wrap y ≠ 0 → div.apply (wrap x) (wrap y)
      = .ok ((BitVec.ofInt 64 x).sdiv (BitVec.ofInt 64 y)).toInt) := by
  refine ⟨fun e => ?_, fun hy => ?_, apply_div_wrap x⟩
  · rw [apply_eq_error_iff, and_iff_right (rfl : div = div)]
  · exact ⟨x.tdiv y, fun _ => isTruncatedQuotient_iff hy, tdiv_eq_signedQuotient x y,
      apply_div_of_ne_zero x hy,
      fun hx _ => ⟨isWord_tdiv_iff hx, apply_div_of_isWord hx hy⟩⟩

/-- The quotients of `-7` by `2` and of the least word by `-1`, and a dividend that is no word. -/
theorem apply_div_negative :
    IsTruncatedQuotient (-7) 2 (-3) ∧ div.apply (-7) 2 = .ok (-3) ∧
    div.apply (-0x8000000000000000) (-1) = .ok (-0x8000000000000000) ∧
    div.apply (wrap 0x1FFFFFFFFFFFFFFF9) (wrap 2)
      = .ok ((BitVec.ofInt 64 0x1FFFFFFFFFFFFFFF9).sdiv (BitVec.ofInt 64 2)).toInt := by
  obtain ⟨q, hunique, hq, -, hword⟩ := (apply_div (-7) 2).2.1 (by decide)
  obtain ⟨q', -, -, -, hword'⟩ := (apply_div minWord (-1)).2.1 (by decide)
  obtain rfl : q = -3 := hq.trans (by decide)
  refine ⟨(hunique _).mpr rfl, ?_, ?_, (apply_div 0x1FFFFFFFFFFFFFFF9 2).2.2 (by decide)⟩
  · exact (hword (by decide) (by decide)).2
  · exact (hword' (by decide) (by decide)).2

end Operator

end ArithAsm
