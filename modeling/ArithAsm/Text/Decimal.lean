import ArithAsm.Word

/-!
# Decimal numerals

A number is read from decimal digits, and written in them, only if they are not too many.  What is
shown with a number in it may therefore have no text (`PrintError`).  Words are always short enough
(`hasDecimal_of_isWord`); a power of ten is the least natural number that is not
(`not_hasDecimal_natCast`).
-/

namespace ArithAsm

/-- Why something has no text. -/
inductive PrintError where
  /-- A number has too many digits to be written. -/
  | tooManyDigits
  /-- What stands in place of a node is none. -/
  | foreign
  deriving DecidableEq, Repr

namespace Text

/-- The largest number of digits that are read or written, leading zeros included. -/
def maxDigits : Nat :=
  4300

/-- **The number can be written:** it has at most so many digits. -/
def HasDecimal (v : Int) : Prop :=
  (Nat.toDigits 10 v.natAbs).length ≤ maxDigits

instance : DecidablePred HasDecimal := fun _ => inferInstanceAs (Decidable (_ ≤ _))

/-- The decimal text of a number. -/
def decimal (v : Int) : Except PrintError String :=
  if HasDecimal v then .ok (toString v) else .error .tooManyDigits

/-- The wording of the error that a number has too many digits. -/
def tooManyDigitsMessage : String :=
  "Exceeds the limit (4300 digits) for integer string conversion; use sys.set_int_max_str_digits() "
    ++ "to increase the limit"

variable {v : Int} {text : String}

theorem decimal_of_hasDecimal (h : HasDecimal v) : decimal v = .ok (toString v) :=
  if_pos h

theorem decimal_of_not_hasDecimal (h : ¬ HasDecimal v) : decimal v = .error .tooManyDigits :=
  if_neg h

theorem decimal_eq_ok_iff : decimal v = .ok text ↔ HasDecimal v ∧ toString v = text := by
  unfold decimal
  split
  next h => simp [h]
  next h => simp [h]

theorem hasDecimal_iff : HasDecimal v ↔ v.natAbs < Nat.pow 10 maxDigits := by
  unfold HasDecimal
  rw [Nat.length_toDigits_le_iff (by decide) (by decide), Nat.pow_eq]

theorem hasDecimal_of_isWord (h : IsWord v) : HasDecimal v := by
  have hlength : (Nat.toDigits 10 v.natAbs).length ≤ 20 := by
    refine (Nat.length_toDigits_le_iff (by decide) (by decide)).mpr ?_
    unfold IsWord at h
    omega
  exact Nat.le_trans hlength (by decide)

theorem not_hasDecimal_natCast {n : Nat} (h : Nat.pow 10 maxDigits ≤ n) : ¬ HasDecimal n :=
  fun hn => Nat.not_lt.mpr h (hasDecimal_iff.mp hn)

end Text

/-- The wording of the error. -/
def PrintError.message : PrintError → String
  | tooManyDigits => Text.tooManyDigitsMessage
  | foreign => "'str' object has no attribute 'pprint'"

end ArithAsm
