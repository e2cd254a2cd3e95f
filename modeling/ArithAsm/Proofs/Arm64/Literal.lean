import ArithAsm.Assembly.Registry
import ArithAsm.Proofs.Arm64.Block
import Mathlib.Algebra.Group.Nat.Defs
import Std.Data.String.ToNat

/-!
# Literals on the 64-bit ARM machine

A literal is built in the scratch register from fields of 16 bits, the lowest first.  The first
field replaces what the register held, and each of the others is put into a place above the fields
that are already there, so that it adds its value times the weight of its place
(`insertField_of_lt`).  The main statement is `leads_buildScratch`: the fields of a number below
`2^64` leave that number in the register, whatever stood there before.  With it a literal of
`[-2^64, 2^64)` is pushed as its residue (`leads_literal`).
-/

namespace ArithAsm.Arm64

open Backend (arm64Darwin buildScratch)

/-! ### Residues -/

theorem residue_lt (v : Int) : residue v < 0x10000000000000000 := by
  unfold residue
  omega

theorem residue_eq_emod (v : Int) : (residue v : Int) = v % 0x10000000000000000 := by
  unfold residue
  omega

theorem residue_eq_residue {v w : Int}
    (h : v % 0x10000000000000000 = w % 0x10000000000000000) : residue v = residue w := by
  unfold residue
  rw [h]

theorem residue_wrap (v : Int) : residue (wrap v) = residue v :=
  residue_eq_residue (wrap_eq_wrap_iff.mp (wrap_wrap v))

theorem wrap_residue (v : Int) : wrap (residue v) = wrap v := by
  rw [wrap_eq_wrap_iff]
  unfold residue
  omega

theorem wrap_residue_of_isWord {v : Int} (h : IsWord v) : wrap (residue v) = v := by
  rw [wrap_residue, wrap_eq_self h]

/-! ### Fields -/

theorem immediate?_sharp (n : Nat) : immediate? ("#" ++ toString n) = some n := by
  have hlist : ("#" ++ toString n).toList = '#' :: n.repr.toList := by simp
  rw [immediate?, hlist]
  simp only [String.ofList_toList]
  exact Nat.toNat?_repr n

theorem weight?_lsl {i : Nat} (hpos : 0 < i) (hle : i ≤ 3) :
    weight? ("lsl " ++ toString (16 * i)) = some (0x10000 ^ i) := by
  obtain rfl | rfl | rfl : i = 1 ∨ i = 2 ∨ i = 3 := by omega
  · rfl
  · rfl
  · rfl

theorem insertField_of_lt {word field weight : Nat} (h : word < weight) :
    insertField word field weight = word + field * weight := by
  unfold insertField
  rw [Nat.div_eq_of_lt h]
  simp

theorem place_le {m i : Nat} (hm : 0 < m) (h : m * 0x10000 ^ i < 0x10000000000000000) : i ≤ 3 := by
  refine Nat.le_of_not_lt fun hi => ?_
  have hle : 0x10000 ^ 4 ≤ 0x10000 ^ i := Nat.pow_le_pow_right (by decide) (by omega)
  have hmul : 0x10000 ^ i ≤ m * 0x10000 ^ i := Nat.le_mul_of_pos_left _ hm
  omega

/-- The instruction that puts a field into its place in the scratch register. -/
def fieldLine : Nat × Nat → Line
  | (field, 0) => .instruction "movz" ["X9", "#" ++ toString field]
  | (field, i) => .instruction "movk" ["X9", "#" ++ toString field, "lsl " ++ toString (16 * i)]

theorem buildScratch_eq (n : Nat) : buildScratch n = (halfwords n).zipIdx.map fieldLine := by
  unfold buildScratch
  refine List.map_congr_left fun ⟨field, i⟩ _ => ?_
  cases i <;> rfl

variable {base s : State}

theorem leads_movz {field : Nat} (hfield : field < 0x10000) (hs : base.Above s) :
    Leads base s [fieldLine (field, 0)] { s with x9 := field } := by
  refine leads_of_execute ?_ (by decide) (by decide) hs
  simp only [execute, Register.ofOperand?, immediate?_sharp, if_pos hfield]
  rfl

theorem leads_movk {field i : Nat} (hfield : field < 0x10000) (hpos : 0 < i) (hle : i ≤ 3)
    (hlow : s.x9 < 0x10000 ^ i) (hs : base.Above s) :
    Leads base s [fieldLine (field, i)] { s with x9 := s.x9 + field * 0x10000 ^ i } := by
  have hline : fieldLine (field, i)
      = .instruction "movk" ["X9", "#" ++ toString field, "lsl " ++ toString (16 * i)] := by
    obtain ⟨j, rfl⟩ : ∃ j, i = j + 1 := ⟨i - 1, by omega⟩
    rfl
  rw [hline]
  refine leads_of_execute ?_ (by decide) (by decide) hs
  simp only [execute, Register.ofOperand?, immediate?_sharp, weight?_lsl hpos hle, if_pos hfield]
  rw [State.get, insertField_of_lt hlow]
  rfl

theorem leads_fields {m i : Nat} (hm : 0 < m) (hi : 0 < i)
    (hbound : m * 0x10000 ^ i < 0x10000000000000000) (hlow : s.x9 < 0x10000 ^ i)
    (hs : base.Above s) :
    Leads base s (((halfwords m).zipIdx i).map fieldLine)
      { s with x9 := s.x9 + m * 0x10000 ^ i } := by
  have hle := place_le hm hbound
  fun_induction halfwords m generalizing i s with
  | case1 m hsmall => exact leads_movk hsmall hi hle hlow hs
  | case2 m hlarge ih =>
    have hfield : m % 0x10000 < 0x10000 := Nat.mod_lt m (by decide)
    have hfirst := leads_movk hfield hi hle hlow hs
    have hsum : m % 0x10000 * 0x10000 ^ i + m / 0x10000 * 0x10000 ^ (i + 1)
        = m * 0x10000 ^ i := by
      calc m % 0x10000 * 0x10000 ^ i + m / 0x10000 * 0x10000 ^ (i + 1)
          = (m % 0x10000 + 0x10000 * (m / 0x10000)) * 0x10000 ^ i := by
            rw [Nat.pow_succ, Nat.add_mul]
            ac_rfl
        _ = m * 0x10000 ^ i := by rw [Nat.mod_add_div]
    have hlow' : s.x9 + m % 0x10000 * 0x10000 ^ i < 0x10000 ^ (i + 1) := by
      have hmul := Nat.mul_le_mul_right (0x10000 ^ i) (Nat.le_of_lt_succ hfield)
      rw [Nat.pow_succ]
      omega
    have hrest := ih (i := i + 1) (s := { s with x9 := s.x9 + m % 0x10000 * 0x10000 ^ i })
      (by omega) (by omega) (by omega) hlow' hs (place_le (m := m / 0x10000) (by omega) (by omega))
    rw [List.zipIdx_cons, List.map_cons]
    have hboth := hfirst.append hrest
    simp only [Nat.add_assoc, hsum] at hboth
    exact hboth

/-! ### Literals -/

/-- **A number below `2^64` is built in the scratch register,** whatever it held. -/
theorem leads_buildScratch {n : Nat} (hn : n < 0x10000000000000000) (hs : base.Above s) :
    Leads base s (buildScratch n) { s with x9 := n } := by
  rw [buildScratch_eq]
  unfold halfwords
  by_cases hsmall : n < 0x10000
  · rw [if_pos hsmall]
    exact leads_movz hsmall hs
  · rw [if_neg hsmall]
    have hfield : n % 0x10000 < 0x10000 := Nat.mod_lt n (by decide)
    have hfirst := leads_movz hfield hs
    have hrest := leads_fields (m := n / 0x10000) (i := 1) (s := { s with x9 := n % 0x10000 })
      (by omega) (by omega) (by omega) (by simpa using hfield) hs
    have hsum : n % 0x10000 + n / 0x10000 * 0x10000 ^ 1 = n := by omega
    have hboth := hfirst.append hrest
    simp only [hsum] at hboth
    exact hboth

/-- A literal that the backend builds as its residue: an integer of `[-2^64, 2^64)`. -/
def IsLiteral (v : Int) : Prop :=
  -0x10000000000000000 ≤ v ∧ v < 0x10000000000000000

instance : DecidablePred IsLiteral := fun _ => inferInstanceAs (Decidable (_ ∧ _))

theorem lines_literal {value : Int} (h : IsLiteral value) (position : Option Int) :
    (arm64Darwin.leaf (.number value position)).lines
      = buildScratch (residue value) ++ [arm64Darwin.push "X9"] := by
  obtain ⟨hlow, hhigh⟩ := h
  have hresidue : (if value < 0 then value + 0x10000000000000000 else value) = residue value := by
    unfold residue
    split <;> omega
  have hnonneg : ¬ (residue value : Int) < 0 := by omega
  simp only [Backend.leaf, Backend.const, arm64Darwin, hresidue, if_neg hnonneg, Int.toNat_natCast]
  rfl

/-- **A literal is pushed as its residue.** -/
theorem leads_literal {value : Int} (h : IsLiteral value) (position : Option Int)
    (hs : base.Above s) :
    Leads base s (arm64Darwin.leaf (.number value position)).lines
      { s with x9 := residue value, stack := residue value :: s.stack, sp := s.sp - 16 } := by
  have hbuild := leads_buildScratch (residue_lt value) hs
  rw [lines_literal h]
  exact hbuild.append (leads_of_execute rfl (by decide) (by decide) hs)

end ArithAsm.Arm64
