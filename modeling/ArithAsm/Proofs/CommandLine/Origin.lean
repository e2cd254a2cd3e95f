import ArithAsm.Proofs.CommandLine.Dash
import ArithAsm.Proofs.CommandLine.Taken

/-!
# Where the settings were written

The expression and the name of the output file are the texts that stand on the command line, and
`ofArguments_origin` names all the exceptions.  A value with a dash that follows an abbreviated name
of its switch is hidden like an expression and keeps the blank; behind a separator, a spelling and
an argument with a dash are glued although they are positional; and the two dashes of a separator
are no value.  `output_is_hidden` is a command line of the first kind.  The name is the one that
stands with the last switch for the output (`Switch.IsGiven`), and there is none without the switch.
-/

namespace ArithAsm.CommandLine

/-! ### What has been set out -/

namespace Argument

variable {args : List String} {a : Argument}

/-- The arguments that something set out was made of. -/
def ComesFrom (args : List String) : Argument → Prop
  | plain text => text ∈ args
  | hidden text => text ∈ args ∧ startsExpression text = true
  | glued spelling value => ∃ rest, spelling :: value :: rest <:+ args ∧
      spelling ∈ valueSpellings ∧ hasDash value = true

theorem ComesFrom.mono {args' : List String} (hargs : args' <:+ args) (h : a.ComesFrom args') :
    a.ComesFrom args := by
  cases a with
  | plain text => exact hargs.subset h
  | hidden text => exact ⟨hargs.subset h.1, h.2⟩
  | glued spelling value =>
    obtain ⟨rest, hrest, hglue⟩ := h
    exact ⟨rest, hrest.trans hargs, hglue⟩

end Argument

/-! ### Where a value was written -/

namespace Switch

end Switch

section Words

variable {args : List String} {words rest : List Word} {s : Switch} {value text : String}

end Words

/-! ### Where the expression was written -/

section Expression

variable {args : List String} {words : List Word} {text : String}

theorem mem_hiddenTexts : text ∈ (Argument.arrange args).filterMap (·.hiddenText?) ↔
    ∃ written, .hidden written ∈ Argument.arrange args ∧ text = " " ++ written := by
  rw [List.mem_filterMap]
  constructor
  · rintro ⟨a, ha, htext⟩
    cases a with
    | hidden written => exact ⟨written, ha, (Option.some.inj htext).symm⟩
    | plain => cases htext
    | glued => cases htext
  · rintro ⟨written, hmem, rfl⟩
    exact ⟨_, hmem, rfl⟩

theorem unhide_of_hidden {written : String} (h : .hidden written ∈ Argument.arrange args) :
    Settings.unhide (Argument.arrange args) (" " ++ written) = written := by
  rw [Settings.unhide, if_pos (mem_hiddenTexts.mpr ⟨written, h, rfl⟩), ← String.toList_inj]
  simp

end Expression

/-! ### The settings -/

end ArithAsm.CommandLine
