import ArithAsm.Proofs.Arm64.Literal
import ArithAsm.Proofs.Word.Residue
import Mathlib.Data.Nat.Digits.Lemmas

/-!
# The loop that builds a constant

A constant is built in the scratch register by a loop: the lowest 16 bits are moved into the
register, and as long as something is left of the number, the next 16 bits are put into the next
place and shifted out.  A negative constant is taken with `2^64` added, and the shift keeps the sign
of what is left, so that below `-2^64` the loop would not end.  `Written v lines` says that the loop
for `v` ends and has written the lines.  It does so exactly if the backend emits them
(`written_iff`).  The fields are then the digits of the number to the base `2^16`, and what is known
of digits gives the main statement, `const_eq_fields`.
-/

namespace ArithAsm.Arm64

open Backend (arm64Darwin buildScratch)
open Emission (emit)

/-! ### The loop -/

/-- **The loop for what is left of a number:** as long as this is not zero, its lowest 16 bits are
put into the place `i`, and it is shifted by them. -/
inductive ShiftsOut : Int → Nat → List Line → Prop
  | stop (i : Nat) : ShiftsOut 0 i []
  | field {n : Int} {i : Nat} {lines : List Line} (hn : n ≠ 0)
      (h : ShiftsOut (n >>> (16 : Nat)) (i + 1) lines) :
      ShiftsOut n i (fieldLine ((n.land 0xFFFF).toNat, i) :: lines)

/-- The number whose fields are written for a constant. -/
def encoded (v : Int) : Int :=
  if v < 0 then 0x10000000000000000 + v else v

/-- **The loop for a constant ends,** and with the push of the register it has written the lines. -/
def Written (v : Int) (lines : List Line) : Prop :=
  ∃ more, ShiftsOut (encoded v >>> (16 : Nat)) 1 more ∧
    lines = fieldLine (((encoded v).land 0xFFFF).toNat, 0) :: more ++ [arm64Darwin.push "X9"]

variable {v n : Int} {i m : Nat} {lines : List Line}

theorem land_field (n : Int) : n.land 0xFFFF = n % 0x10000 :=
  land_mask 16 n

theorem shiftRight_field (n : Int) : n >>> (16 : Nat) = n / 0x10000 :=
  Int.shiftRight_eq_div_pow n 16

theorem shiftsOut_natCast (m i : Nat) :
    ShiftsOut m i (((Nat.digits 0x10000 m).zipIdx i).map fieldLine) := by
  induction m using Nat.strong_induction_on generalizing i with
  | _ m ih =>
    by_cases hm : m = 0
    · subst hm
      rw [Nat.digits_zero]
      exact .stop i
    · have hrest := ih (m / 0x10000) (by omega) (i + 1)
      have hfield : ((m : Int).land 0xFFFF).toNat = m % 0x10000 := by
        rw [land_field]
        omega
      have hshift : (m : Int) >>> (16 : Nat) = (m / 0x10000 : Nat) := shiftRight_field m
      rw [Nat.digits_eq_cons_digits_div (by decide) hm, List.zipIdx_cons, List.map_cons, ← hfield]
      rw [← hshift] at hrest
      exact .field (by omega) hrest

/-- **The loop ends for no negative number,** and for the others it writes their fields. -/
theorem shiftsOut_iff : ShiftsOut n i lines ↔
    0 ≤ n ∧ lines = ((Nat.digits 0x10000 n.toNat).zipIdx i).map fieldLine := by
  constructor
  · intro h
    induction h with
    | stop i => exact ⟨Int.le_refl 0, rfl⟩
    | @field n i lines hn _ ih =>
      obtain ⟨hpos, hlines⟩ := ih
      rw [shiftRight_field] at hpos hlines
      have hnonneg : 0 ≤ n := by omega
      have hrest : (n / 0x10000).toNat = n.toNat / 0x10000 := by omega
      refine ⟨hnonneg, ?_⟩
      rw [Nat.digits_eq_cons_digits_div (by decide) (by omega), List.zipIdx_cons, List.map_cons,
        hlines, hrest, land_field]
      congr 3
      omega
  · rintro ⟨hn, rfl⟩
    have h := shiftsOut_natCast n.toNat i
    rwa [Int.toNat_of_nonneg hn] at h

/-! ### What the backend emits -/

theorem halfwords_eq (m : Nat) :
    halfwords m = m % 0x10000 :: Nat.digits 0x10000 (m / 0x10000) := by
  fun_induction halfwords m with
  | case1 m hsmall => rw [Nat.mod_eq_of_lt hsmall, Nat.div_eq_of_lt hsmall, Nat.digits_zero]
  | case2 m hlarge ih =>
    have hrest : m / 0x10000 ≠ 0 := by omega
    rw [ih, Nat.digits_eq_cons_digits_div (by decide) hrest]

theorem buildScratch_eq_cons (m : Nat) : buildScratch m =
    fieldLine (m % 0x10000, 0) :: ((Nat.digits 0x10000 (m / 0x10000)).zipIdx 1).map fieldLine := by
  rw [buildScratch_eq, halfwords_eq, List.zipIdx_cons, List.map_cons]

theorem const_eq_ite (v : Int) : arm64Darwin.const v =
    if encoded v < 0 then Emission.fail (.unencodable v)
    else emit (buildScratch (encoded v).toNat ++ [arm64Darwin.push "X9"]) := by
  unfold encoded
  rw [Int.add_comm]
  rfl

/-- **The backend emits what the loop writes,** and nothing where the loop does not end. -/
theorem written_iff : Written v lines ↔ arm64Darwin.const v = emit lines := by
  rw [const_eq_ite]
  by_cases hneg : encoded v < 0
  · have hnot : ¬ Written v lines := by
      rintro ⟨more, hmore, -⟩
      obtain ⟨hpos, -⟩ := shiftsOut_iff.mp hmore
      rw [shiftRight_field] at hpos
      omega
    rw [if_pos hneg]
    simp [hnot, Emission.fail, emit]
  · obtain ⟨m, hm⟩ := Int.eq_ofNat_of_zero_le (Int.not_lt.mp hneg)
    have hfirst : ((encoded v).land 0xFFFF).toNat = m % 0x10000 := by
      rw [land_field]
      omega
    have hrest : encoded v >>> (16 : Nat) = (m / 0x10000 : Nat) := by
      rw [shiftRight_field]
      omega
    rw [if_neg hneg, Written, hfirst, hrest, hm, Int.toNat_natCast, buildScratch_eq_cons]
    constructor
    · rintro ⟨more, hmore, rfl⟩
      obtain ⟨-, rfl⟩ := shiftsOut_iff.mp hmore
      rfl
    · exact fun h => ⟨_, shiftsOut_natCast _ 1, (congrArg Emission.lines h).symm⟩

/-! ### The fields -/

theorem lt_of_mem_halfwords {field : Nat} (h : field ∈ halfwords m) : field < 0x10000 := by
  rw [halfwords_eq] at h
  rcases List.mem_cons.mp h with rfl | h
  · exact Nat.mod_lt m (by decide)
  · exact Nat.digits_lt_base (by decide) h

/-- **The fields are the number,** each with the weight of its place. -/
theorem sum_halfwords (m : Nat) :
    ((halfwords m).mapIdx fun i field => field * 2 ^ (16 * i)).sum = m := by
  have hdigits : ((halfwords m).mapIdx fun i field => field * 2 ^ (16 * i)).sum
      = Nat.ofDigits 0x10000 (halfwords m) := by
    rw [Nat.ofDigits_eq_sum_mapIdx]
    congr 2
    funext i field
    rw [Nat.pow_mul]
  rw [hdigits, halfwords_eq, Nat.ofDigits_cons, Nat.ofDigits_digits]
  exact Nat.mod_add_div m 0x10000

theorem getLast?_digits_ne (m : Nat) : (Nat.digits 0x10000 m).getLast? ≠ some 0 := by
  by_cases hm : m = 0
  · subst hm
    simp
  · have hne : Nat.digits 0x10000 m ≠ [] := Nat.digits_ne_nil_iff_ne_zero.mpr hm
    rw [List.getLast?_eq_some_getLast hne]
    exact fun h => Nat.getLast_digit_ne_zero 0x10000 hm (Option.some.inj h)

/-- **A constant of at least `-2^64` is built exactly.**  The loop ends; it has moved one field into
the register and put the others into the places above in their order, and the register is pushed.
The fields have 16 bits, the last place holds no zero, and together they are the constant, with
`2^64` added if it is negative.  Below `2^64` there are at most four of them, and they leave the
residue of the constant in the register, whatever it held. -/
theorem const_eq_fields (hv : -0x10000000000000000 ≤ v) :
    ∃ first fields,
      let code := fieldLine (first, 0) :: (fields.zipIdx 1).map fieldLine
      Written v (code ++ [arm64Darwin.push "X9"]) ∧
      arm64Darwin.const v = emit (code ++ [arm64Darwin.push "X9"]) ∧
      (∀ field ∈ first :: fields, field < 0x10000) ∧ fields.getLast? ≠ some 0 ∧
      ((((first :: fields).mapIdx fun i field => field * 2 ^ (16 * i)).sum : Nat) : Int) =
        (if v < 0 then v + 0x10000000000000000 else v) ∧
      (v < 0x10000000000000000 → fields.length ≤ 3 ∧
        ∀ s : State, Leads s s code { s with x9 := residue v }) := by
  obtain ⟨m, hm⟩ : ∃ m : Nat, (if v < 0 then v + 0x10000000000000000 else v) = m := by
    refine Int.eq_ofNat_of_zero_le ?_
    split <;> omega
  have hencoded : encoded v = m := by
    rw [← hm, encoded, Int.add_comm]
  have hconst : arm64Darwin.const v = emit (buildScratch m ++ [arm64Darwin.push "X9"]) := by
    rw [const_eq_ite, hencoded, if_neg (by omega), Int.toNat_natCast]
  have hbuild := buildScratch_eq_cons m
  rw [hbuild] at hconst
  refine ⟨m % 0x10000, Nat.digits 0x10000 (m / 0x10000), written_iff.mpr hconst, hconst,
    ?_, getLast?_digits_ne _, ?_, fun hhigh => ⟨?_, fun s => ?_⟩⟩
  · rw [← halfwords_eq]
    exact fun field => lt_of_mem_halfwords
  · rw [← halfwords_eq, sum_halfwords, hm]
  · rw [Nat.digits_length_le_iff (by decide)]
    split at hm <;> omega
  · have hresidue : residue v = m := by
      unfold residue
      split at hm <;> omega
    rw [← hbuild, hresidue]
    exact leads_buildScratch (hresidue ▸ residue_lt v) (State.Above.refl s)

/-- A negative constant with a field of zeros below its last field. -/
theorem const_eq_fields_negative :
    let v : Int := -0xFFFFFFFB00000000
    let code := [fieldLine (0, 0), fieldLine (0, 1), fieldLine (5, 2)]
    (-0x10000000000000000 ≤ v) ∧ Written v (code ++ [arm64Darwin.push "X9"]) ∧
      ∀ s : State, Leads s s code { s with x9 := 0x500000000 } := by
  intro v code
  have hv : -0x10000000000000000 ≤ v := by decide
  have hresidue : residue v = 0x500000000 := by decide
  have hcode : arm64Darwin.const v = emit (code ++ [arm64Darwin.push "X9"]) := by
    simp [const_eq_ite, buildScratch_eq_cons, encoded, v, code]
  obtain ⟨first, fields, hwritten, hconst, -, -, -, hbelow⟩ := const_eq_fields hv
  have hlines := List.append_cancel_right (congrArg Emission.lines (hconst.symm.trans hcode))
  obtain ⟨-, hleads⟩ := hbelow (by decide)
  rw [hlines] at hwritten hleads
  rw [hresidue] at hleads
  exact ⟨hv, hwritten, hleads⟩

end ArithAsm.Arm64
