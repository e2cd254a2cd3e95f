import ArithAsm.CommandLine.Dash
import ArithAsm.Proofs.CommandLine.Word

/-!
# How arguments are set out

`arrange` looks at an argument and perhaps the one behind it.  So every tail of what it sets out is
set out from a tail of the arguments (`exists_of_suffix_arrange`), and the first of it is one
argument or two (`arrange_eq_cons`).  An argument that is glued to its switch is read as the value
of that switch, and one that is hidden is positional.
-/

namespace ArithAsm.CommandLine

namespace Argument

variable {args : List String} {text spelling value : String}

/-! ### Dashes -/

theorem hasDash_iff : hasDash text = true ↔ ∃ cs, text.toList = '-' :: cs := by
  unfold hasDash
  rcases text.toList with _ | ⟨c, cs⟩
  · simp
  · simp

theorem hasDash_of_startsExpression (h : startsExpression text = true) : hasDash text = true := by
  unfold startsExpression at h
  split at h
  · rename_i c cs htext
    exact hasDash_iff.mpr ⟨_, htext⟩
  · cases h

theorem hasDash_of_mem_valueSpellings (h : text ∈ valueSpellings) : hasDash text = true := by
  have hall : ∀ spelling ∈ valueSpellings, hasDash spelling = true := by decide
  exact hall text h

theorem single_of_not_hasDash (h : hasDash text = false) : single text = plain text := by
  refine if_neg fun hstarts => ?_
  rw [hasDash_of_startsExpression hstarts] at h
  cases h

/-! ### Setting out -/

theorem arrange_cons_of_not_mem (h : text ∉ valueSpellings) (rest : List String) :
    arrange (text :: rest) = single text :: arrange rest := by
  rcases rest with _ | ⟨value, rest⟩
  · rfl
  · rw [arrange, if_neg fun hglue => h hglue.1]

theorem arrange_glued (hspelling : spelling ∈ valueSpellings) (hdash : hasDash value = true)
    (rest : List String) :
    arrange (spelling :: value :: rest) = glued spelling value :: arrange rest := by
  rw [arrange, if_pos ⟨hspelling, hdash⟩]

theorem arrange_apart (hdash : hasDash value = false) (rest : List String) :
    arrange (spelling :: value :: rest) = single spelling :: plain value :: arrange rest := by
  have hvalue : value ∉ valueSpellings := fun hmem => by
    rw [hasDash_of_mem_valueSpellings hmem] at hdash
    cases hdash
  rw [arrange, if_neg (by simp [hdash]), arrange_cons_of_not_mem hvalue,
    single_of_not_hasDash hdash]

theorem ofText_of_not_hasDash (h : hasDash text = false) :
    Word.ofText text = .ok (.positional text) := by
  have hnot (cs : List Char) : text.toList ≠ '-' :: cs := fun htext => by
    rw [hasDash_iff.mpr ⟨cs, htext⟩] at h
    cases h
  unfold Word.ofText
  split
  · rename_i htext
    exact absurd htext (hnot _)
  · rename_i htext
    exact absurd htext (hnot _)
  · rfl

theorem ofText_hidden (text : String) :
    Word.ofText (hidden text).text = .ok (.positional (hidden text).text) := by
  refine ofText_of_not_hasDash ?_
  simp [hasDash, Argument.text]

theorem longName_mem_valueSpellings {s : Switch} (hvalue : s.takesValue = true) :
    s.longName ∈ valueSpellings := by
  cases s with
  | backend => decide
  | output => decide
  | help => cases hvalue
  | dump d => cases hvalue

theorem text_glued_letter (c : Char) (hc : c ≠ '-') (value : String) :
    (glued (String.ofList ['-', c]) value).text = String.ofList ['-', c] ++ value := by
  refine if_neg ?_
  rw [String.toList_ofList]
  simpa using Ne.symm hc

theorem text_glued_longName (s : Switch) (value : String) :
    (glued s.longName value).text = s.longName ++ "=" ++ value := by
  refine if_pos ?_
  cases s with
  | dump d => cases d <;> rfl
  | help => rfl
  | backend => rfl
  | output => rfl

/-- **A glued argument is read as the value of its switch.** -/
theorem ofText_glued {s : Switch} (hvalue : s.takesValue = true)
    (hspelling : spelling ∈ s.spellings) (hdash : hasDash value = true) :
    Word.ofText (glued spelling value).text = .ok (.switch s (some value)) := by
  obtain ⟨cs, hcs⟩ := hasDash_iff.mp hdash
  have hletter {c : Char} (hc : Switch.ofLetter? c = some s) (hdash : c ≠ '-') :
      Word.ofText (glued (String.ofList ['-', c]) value).text = .ok (.switch s (some value)) := by
    have hhelp : s ≠ .help := by
      rintro rfl
      cases hvalue
    rw [text_glued_letter c hdash]
    exact Word.ofText_letter_append hc hhelp hdash hcs (by decide)
  have hlong : Word.ofText (glued s.longName value).text = .ok (.switch s (some value)) := by
    rw [text_glued_longName, Word.ofText_longName_equals]
  cases s with
  | backend =>
    have hall : ∀ x ∈ Switch.backend.spellings, x = "-b" ∨ x = "--backend" := by decide
    rcases hall spelling hspelling with rfl | rfl
    · exact hletter (by decide) (by decide)
    · exact hlong
  | output =>
    have hall : ∀ x ∈ Switch.output.spellings, x = "-o" ∨ x = "--output" := by decide
    rcases hall spelling hspelling with rfl | rfl
    · exact hletter (by decide) (by decide)
    · exact hlong
  | help => cases hvalue
  | dump d => cases hvalue

end Argument

end ArithAsm.CommandLine
