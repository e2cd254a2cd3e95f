import ArithAsm.Assembly.Line
import ArithAsm.Text.Decimal
import ArithAsm.Text.Quoted
import ArithAsm.Tree

/-!
# Emission of assembly

An emission is a list of lines together with a result or the error that cut it short; the lines
written before the error are kept.  Emissions are put together one after the other: the lines of
the second follow those of the first, and an error of the first leaves the second out.
-/

namespace ArithAsm

/-- Why a tree has no assembly. -/
inductive LowerError where
  /-- A leaf of the tree is not a number. -/
  | malformed (a : Leaf)
  /-- A literal is out of the reach of the instructions that build it. -/
  | unencodable (value : Int)
  /-- A literal has too many digits to be written. -/
  | tooManyDigits
  deriving DecidableEq, Repr

namespace LowerError

/-- A leaf as an error message shows it. -/
def leafText : Leaf → String
  | .number value _ => toString value
  | .placeholder .expression => "Expression(position=None)"
  | .placeholder .tree => "AST(position=None)"
  | .foreign text => Text.quoted text

/-- The wording of the error. -/
def message : LowerError → String
  | malformed a => "not an expression: " ++ leafText a
  | unencodable value => "no encoding of the literal " ++ toString value
  | tooManyDigits => Text.tooManyDigitsMessage

end LowerError

/-- Lines of assembly, and how their emission ended. -/
structure Emission (α : Type) where
  lines : List Line
  result : Except LowerError α

namespace Emission

variable {α β : Type}

/-- Emits nothing. -/
def nothing (x : α) : Emission α :=
  ⟨[], .ok x⟩

/-- Emits nothing more, because of an error. -/
def fail (e : LowerError) : Emission α :=
  ⟨[], .error e⟩

/-- Emits some lines. -/
def emit (lines : List Line) : Emission PUnit :=
  ⟨lines, .ok ⟨⟩⟩

/-- One emission after the other. -/
def andThen (first : Emission α) (second : α → Emission β) : Emission β :=
  match first.result with
  | .error e => ⟨first.lines, .error e⟩
  | .ok x =>
    let r := second x
    ⟨first.lines ++ r.lines, r.result⟩

instance : Monad Emission where
  pure := nothing
  bind := andThen

theorem map_id (e : Emission α) : id <$> e = e := by
  change e.andThen (fun x => nothing x) = e
  rcases e with ⟨lines, _ | x⟩ <;> simp [andThen, nothing]

theorem nothing_andThen (x : α) (second : α → Emission β) :
    (nothing x).andThen second = second x := by
  simp [andThen, nothing]

theorem andThen_assoc {γ : Type} (e : Emission α) (second : α → Emission β)
    (third : β → Emission γ) :
    (e.andThen second).andThen third = e.andThen fun x => (second x).andThen third := by
  unfold andThen
  rcases e with ⟨lines, _ | x⟩
  · rfl
  · rcases h : second x with ⟨lines', _ | y⟩ <;> simp [h]

instance : LawfulMonad Emission :=
  LawfulMonad.mk' Emission map_id nothing_andThen andThen_assoc

end Emission

end ArithAsm
