import ArithAsm.Assembly.Backend
import ArithAsm.Tree.Shape

/-!
# The code of a tree by recursion on the tree

The lines a backend emits for a tree are those of the left operand, those of the right operand, and
the combination (`Backend.code`); an emission can only end early at a leaf.  If the backend has an
encoding for every leaf, the whole code is emitted (`expression_eq`) and the tree has a program
(`lower_eq`).  For which numbers there is one depends on the dialect (`encodes_iff`); every backend
has one for the words (`encodes_of_isWord`).
-/

namespace ArithAsm

open Text (HasDecimal)

namespace Dialect

/-- **The numbers that a dialect can push:** on x86 those that can be written in one piece, on ARM
those of at least `-2^64`. -/
def Pushes : Dialect → Int → Prop
  | .att, value => HasDecimal value
  | .intel, value => HasDecimal value
  | .arm64, value => -0x10000000000000000 ≤ value

/-- The error of a number that a dialect cannot push. -/
def refusal : Dialect → Int → LowerError
  | .att, _ => .tooManyDigits
  | .intel, _ => .tooManyDigits
  | .arm64, value => .unencodable value

instance (d : Dialect) : DecidablePred d.Pushes := fun value =>
  match d with
  | .att => inferInstanceAs (Decidable (HasDecimal value))
  | .intel => inferInstanceAs (Decidable (HasDecimal value))
  | .arm64 => inferInstanceAs (Decidable (_ ≤ _))

end Dialect

namespace Backend

open Emission

/-- The backend emits the whole code of a literal. -/
def Encodes (b : Backend) (value : Int) : Prop :=
  (b.const value).result = .ok ⟨⟩

/-- The lines of the code of a tree. -/
def code (b : Backend) : Tree → List Line
  | .leaf a => (b.leaf a).lines
  | .node op left right _ => b.code left ++ b.code right ++ b.combine op

theorem expression_eq {b : Backend} {t : Tree} (h : t.AllNumbers b.Encodes) :
    b.expression t = ⟨b.code t, .ok ⟨⟩⟩ := by
  induction t with
  | leaf a =>
    cases a with
    | number value position =>
      have hconst : (b.const value).result = .ok ⟨⟩ := h
      rw [expression_leaf, code]
      exact congrArg (Emission.mk (b.const value).lines) hconst
    | placeholder kind => exact h.elim
    | foreign text => exact h.elim
  | node op left right position ihl ihr =>
    have hjoin : ∀ l r : List Line,
        (do (⟨l, .ok ⟨⟩⟩ : Emission PUnit); (⟨r, .ok ⟨⟩⟩ : Emission PUnit); emit (b.combine op))
          = ⟨l ++ (r ++ b.combine op), .ok ⟨⟩⟩ := fun _ _ => rfl
    rw [expression_node, ihl h.1, ihr h.2, hjoin, code, List.append_assoc]

/-- The lines of the program of a tree. -/
def program (b : Backend) (t : Tree) : List Line :=
  b.prologue ++ (b.code t ++ [b.pop b.primary, b.ret])

/-- **A tree of literals that the backend encodes has a program.** -/
theorem lower_eq {b : Backend} {t : Tree} (h : t.AllNumbers b.Encodes) :
    b.lower t = .ok (programText (b.program t)) := by
  have hbody : b.body t = ⟨b.code t ++ [b.pop b.primary, b.ret], .ok ⟨⟩⟩ := by
    rw [body, expression_eq h]
    rfl
  rw [lower, hbody]
  rfl

/-! ### Literals -/

theorem numeral_of_hasDecimal {value : Int} (h : HasDecimal value) :
    numeral value = nothing (toString value) := by
  rw [numeral, Text.decimal_of_hasDecimal h]

theorem numeral_of_not_hasDecimal {value : Int} (h : ¬ HasDecimal value) :
    numeral value = fail .tooManyDigits := by
  rw [numeral, Text.decimal_of_not_hasDecimal h]

theorem encodes_of_pushes (b : Backend) {value : Int} (h : b.dialect.Pushes value) :
    b.Encodes value := by
  unfold Encodes const
  rcases hb : b.dialect <;> rw [hb] at h <;> dsimp only
  · rw [numeral_of_hasDecimal h]
    change (ite _ _ _ : Emission PUnit).result = _
    split <;> rfl
  · rw [numeral_of_hasDecimal h]
    change (ite _ _ _ : Emission PUnit).result = _
    split <;> rfl
  · have hvalue : -0x10000000000000000 ≤ value := h
    have hnonneg : ¬ (if value < 0 then value + 0x10000000000000000 else value) < 0 := by
      split <;> omega
    rw [if_neg hnonneg]
    rfl

theorem const_of_not_pushes (b : Backend) {value : Int} (h : ¬ b.dialect.Pushes value) :
    b.const value = fail (b.dialect.refusal value) := by
  unfold const
  rcases hb : b.dialect <;> rw [hb] at h <;> dsimp only
  · rw [numeral_of_not_hasDecimal h]
    rfl
  · rw [numeral_of_not_hasDecimal h]
    rfl
  · have hvalue : ¬ -0x10000000000000000 ≤ value := h
    have hneg : (if value < 0 then value + 0x10000000000000000 else value) < 0 := by
      split <;> omega
    rw [if_pos hneg]
    rfl

theorem encodes_iff (b : Backend) {value : Int} : b.Encodes value ↔ b.dialect.Pushes value := by
  refine ⟨fun h => Classical.not_not.mp fun hnot => ?_, b.encodes_of_pushes⟩
  rw [Encodes, b.const_of_not_pushes hnot] at h
  cases h

/-- **Every backend encodes the words.** -/
theorem encodes_of_isWord (b : Backend) {value : Int} (h : IsWord value) : b.Encodes value := by
  refine b.encodes_of_pushes ?_
  rcases b.dialect
  · exact Text.hasDecimal_of_isWord h
  · exact Text.hasDecimal_of_isWord h
  · unfold IsWord at h
    change -0x10000000000000000 ≤ value
    omega

end Backend

end ArithAsm
