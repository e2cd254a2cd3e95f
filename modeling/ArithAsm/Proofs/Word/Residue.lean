import ArithAsm.Operator
import Mathlib.Data.Int.Bitwise

/-!
# Words as residues

Every integer agrees modulo `2^64` with exactly one word, which is the one it wraps to
(`eq_wrap_iff`).  This word can be read off the lowest 64 bits of the integer (`wrap_eq_ofLowBits`).
All operators but the division can be applied before or after wrapping (`wrap_exact_wrap`).
-/

namespace ArithAsm

/-! ### The word an integer wraps to -/

/-- **Wrapping gives the one word that agrees with the integer modulo `2^64`.** -/
theorem eq_wrap_iff {v w : Int} :
    w = wrap v ↔ IsWord w ∧ w % 0x10000000000000000 = v % 0x10000000000000000 := by
  constructor
  · rintro rfl
    exact ⟨wrap_isWord v, wrap_eq_wrap_iff.mp (wrap_wrap v)⟩
  · rintro ⟨hword, hagree⟩
    exact (wrap_eq_self hword).symm.trans (wrap_eq_wrap_iff.mpr hagree)

/-- The lowest 64 bits of an integer, the last of which tells that `2^64` is to be taken away. -/
def ofLowBits (v : Int) : Int :=
  let bits := v.land 0xFFFFFFFFFFFFFFFF
  if bits >>> (63 : Nat) = 0 then bits else bits - 0x10000000000000000

theorem ldiff_mask (k n : Nat) : Nat.ldiff (2 ^ k - 1) n = 2 ^ k - (n % 2 ^ k + 1) := by
  refine Nat.eq_of_testBit_eq fun i => ?_
  rw [Nat.testBit_ldiff, Nat.testBit_two_pow_sub_one,
    Nat.testBit_two_pow_sub_succ (Nat.mod_lt n (Nat.two_pow_pos k)), Nat.testBit_mod_two_pow]
  by_cases hi : i < k <;> simp [hi]

theorem land_mask (k : Nat) (v : Int) : v.land (2 ^ k - 1 : Nat) = v % (2 ^ k : Nat) := by
  have hpos := Nat.two_pow_pos k
  cases v with
  | ofNat n =>
    have hand : n &&& (2 ^ k - 1) = n % 2 ^ k := Nat.and_two_pow_sub_one_eq_mod n k
    have hland : (Int.ofNat n).land (2 ^ k - 1 : Nat) = ((n &&& (2 ^ k - 1) : Nat) : Int) := rfl
    rw [hland, hand]
    rfl
  | negSucc n =>
    have hland : (Int.negSucc n).land (2 ^ k - 1 : Nat) = ((Nat.ldiff (2 ^ k - 1) n : Nat) : Int) :=
      rfl
    have hlt := Nat.mod_lt n hpos
    rw [hland, ldiff_mask, Int.negSucc_emod n (Int.natCast_pos.mpr hpos)]
    omega

/-- **A word is read off the lowest 64 bits.** -/
theorem wrap_eq_ofLowBits (v : Int) : wrap v = ofLowBits v := by
  have hshift : (v % 0x10000000000000000) >>> (63 : Nat)
      = v % 0x10000000000000000 / 0x8000000000000000 :=
    Int.shiftRight_eq_div_pow _ 63
  have hland : v.land 0xFFFFFFFFFFFFFFFF = v % 0x10000000000000000 := land_mask 64 v
  have hbmod : wrap v = if v % 0x10000000000000000 < 0x8000000000000000
      then v % 0x10000000000000000 else v % 0x10000000000000000 - 0x10000000000000000 := rfl
  rw [hbmod, ofLowBits, hland]
  simp only [hshift]
  split <;> split <;> omega

/-! ### Operators -/

/-- **All operators but the division respect residues.** -/
theorem wrap_exact_wrap {op : Operator} (hop : op ≠ .div) (x y : Int) :
    wrap (op.exact (wrap x) (wrap y)) = wrap (op.exact x y) := by
  cases op with
  | add => simp only [Operator.exact, wrap, Int.bmod_add_bmod, Int.add_bmod_bmod]
  | sub => simp only [Operator.exact, wrap, Int.bmod_sub_bmod, Int.sub_bmod_bmod]
  | mul => simp only [Operator.exact, wrap, Int.bmod_mul_bmod, Int.mul_bmod_bmod]
  | div => exact absurd rfl hop

end ArithAsm
