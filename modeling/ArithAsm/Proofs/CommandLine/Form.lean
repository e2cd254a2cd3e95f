import ArithAsm.CommandLine.Request
import ArithAsm.Proofs.CommandLine.Dash
import Mathlib.Data.List.Forall2

/-!
# A switch and its value

In whatever form a switch is written with its value, it is set out by itself (`Form.arrange_args`),
is read as words of its own (`Form.read_setOut`), and is given the value (`Form.collect_words`).
-/

namespace ArithAsm.CommandLine

variable {s : Switch} {spelling value : String} {form : Form}

/-- A spelling and its value in two arguments, as they are set out. -/
def setOutApart (spelling value : String) : List Argument :=
  if Argument.hasDash value then [.glued spelling value] else [.plain spelling, .plain value]

/-- A switch and its value, as they are set out. -/
def Form.setOut (s : Switch) (value : String) : Form → List Argument
  | shortApart => setOutApart s.shortName value
  | shortJoined => [.plain (s.shortName ++ value)]
  | longApart => setOutApart s.longName value
  | longJoined => [.plain (s.longName ++ "=" ++ value)]

/-- The words of a switch and its value in two arguments. -/
def wordsApart (s : Switch) (value : String) : List Word :=
  if Argument.hasDash value then [.switch s (some value)]
  else [.switch s none, .positional value]

/-- The words of a switch and its value. -/
def Form.words (s : Switch) (value : String) : Form → List Word
  | shortApart | longApart => wordsApart s value
  | shortJoined | longJoined => [.switch s (some value)]

/-! ### Setting out -/

theorem single_of_mem_valueSpellings (h : spelling ∈ valueSpellings) :
    Argument.single spelling = .plain spelling := by
  have hall : ∀ spelling ∈ valueSpellings, Argument.single spelling = .plain spelling := by decide
  exact hall spelling h

theorem arrange_apart_append (h : spelling ∈ valueSpellings) (value : String) (rest : List String) :
    Argument.arrange (spelling :: value :: rest)
      = setOutApart spelling value ++ Argument.arrange rest := by
  unfold setOutApart
  split
  · rename_i hdash
    exact Argument.arrange_glued h hdash rest
  · rename_i hdash
    rw [Argument.arrange_apart (Bool.eq_false_iff.mpr hdash), single_of_mem_valueSpellings h]
    rfl

theorem Switch.exists_letter (hs : s.takesValue = true) : ∃ c, Switch.ofLetter? c = some s ∧
    c ≠ '-' ∧ c ∉ afterDash ∧ s.shortName = String.ofList ['-', c] ∧
    s.shortName ∈ s.spellings ∧ s.shortName ∈ valueSpellings := by
  cases s with
  | backend => exact ⟨'b', by decide, by decide, by decide, rfl, by decide, by decide⟩
  | output => exact ⟨'o', by decide, by decide, by decide, rfl, by decide, by decide⟩
  | help => cases hs
  | dump d => cases hs

theorem Form.exists_of_allows (h : shortJoined.Allows value) :
    ∃ d ds, value.toList = d :: ds ∧ d ≠ '=' := by
  unfold Allows at h
  rcases hvalue : value.toList with _ | ⟨d, ds⟩ <;> rw [hvalue] at h
  · cases h
  · exact ⟨d, ds, rfl, by simpa using h⟩

theorem arrange_plain {text : String} (hspelling : text ∉ valueSpellings)
    (hstarts : Argument.startsExpression text = false) (rest : List String) :
    Argument.arrange (text :: rest) = .plain text :: Argument.arrange rest := by
  rw [Argument.arrange_cons_of_not_mem hspelling, Argument.single, if_neg (by simp [hstarts])]

theorem arrange_shortJoined (hs : s.takesValue = true) (hform : Form.shortJoined.Allows value)
    (rest : List String) : Argument.arrange ((s.shortName ++ value) :: rest)
      = .plain (s.shortName ++ value) :: Argument.arrange rest := by
  obtain ⟨c, -, hdash, hafter, hname, -⟩ := Switch.exists_letter hs
  obtain ⟨d, ds, hvalue, -⟩ := Form.exists_of_allows hform
  have htext : (s.shortName ++ value).toList = '-' :: c :: d :: ds := by simp [hname, hvalue]
  refine arrange_plain (fun hmem => ?_) ?_ rest
  · have hall : ∀ spelling ∈ valueSpellings,
        spelling.toList.length = 2 ∨ spelling.toList.getD 1 ' ' = '-' := by decide
    rcases hall _ hmem with hlength | hsecond
    · rw [htext] at hlength
      simp at hlength
    · rw [htext] at hsecond
      exact hdash hsecond
  · simpa [Argument.startsExpression, htext] using hafter

theorem arrange_longJoined (hs : s.takesValue = true) (value : String) (rest : List String) :
    Argument.arrange ((s.longName ++ "=" ++ value) :: rest)
      = .plain (s.longName ++ "=" ++ value) :: Argument.arrange rest := by
  refine arrange_plain (fun hmem => ?_) ?_ rest
  · have hall : ∀ spelling ∈ valueSpellings, '=' ∉ spelling.toList := by decide
    exact hall _ hmem (by simp)
  · obtain ⟨cs, hname⟩ : ∃ cs, s.longName.toList = '-' :: '-' :: cs := by
      cases s with
      | backend => exact ⟨_, rfl⟩
      | output => exact ⟨_, rfl⟩
      | help => cases hs
      | dump d => cases hs
    have hdash : '-' ∉ afterDash := by decide
    simpa [Argument.startsExpression, hname] using hdash

/-- **A switch and its value are set out by themselves,** whatever follows. -/
theorem Form.arrange_args (hs : s.takesValue = true) (hform : form.Allows value)
    (rest : List String) :
    Argument.arrange (form.args s value ++ rest)
      = form.setOut s value ++ Argument.arrange rest := by
  obtain ⟨c, -, -, -, -, -, hshort⟩ := Switch.exists_letter hs
  cases form with
  | shortApart => exact arrange_apart_append hshort value rest
  | shortJoined => exact arrange_shortJoined hs hform rest
  | longApart => exact arrange_apart_append (Argument.longName_mem_valueSpellings hs) value rest
  | longJoined => exact arrange_longJoined hs value rest

/-! ### Reading and taking -/

/-- The words that some arguments set out are read as. -/
def Read (as : List Argument) (words : List Word) : Prop :=
  List.Forall₂ (fun a w => Word.ofText a.text = .ok w) as words

theorem Read.ofTexts {as : List Argument} {words : List Word} (h : Read as words) :
    Word.ofTexts (as.map (·.text)) = .ok words := by
  induction h with
  | nil => rfl
  | @cons a w as words hread _ ih =>
    have hseparator : a.text ≠ "--" := fun htext => by
      rw [htext] at hread
      cases hread
    exact (Word.ofTexts_cons_of_ne hseparator).mpr ⟨w, words, hread, ih, rfl⟩

theorem read_apart (hspelling : spelling ∈ s.spellings) (hs : s.takesValue = true)
    (hread : Word.ofText spelling = .ok (.switch s none)) :
    Read (setOutApart spelling value) (wordsApart s value) := by
  unfold setOutApart wordsApart
  split
  · rename_i hdash
    exact .cons (Argument.ofText_glued hs hspelling hdash) .nil
  · rename_i hdash
    have hvalue := Argument.ofText_of_not_hasDash (Bool.eq_false_iff.mpr hdash)
    exact .cons hread (.cons hvalue .nil)

theorem Form.read_setOut (hs : s.takesValue = true) (hform : form.Allows value) :
    Read (form.setOut s value) (form.words s value) := by
  obtain ⟨c, hc, hdash, -, hname, hshort, -⟩ := Switch.exists_letter hs
  have hlong : s.longName ∈ s.spellings := List.mem_append_right _ (List.mem_singleton_self _)
  cases form with
  | shortApart =>
    refine read_apart hshort hs ?_
    cases s with
    | backend => rfl
    | output => rfl
    | help => cases hs
    | dump d => cases hs
  | shortJoined =>
    obtain ⟨d, ds, hvalue, hequals⟩ := Form.exists_of_allows hform
    have hhelp : s ≠ .help := by
      rintro rfl
      cases hs
    refine .cons ?_ .nil
    rw [Argument.text, hname]
    exact Word.ofText_letter_append hc hhelp hdash hvalue hequals
  | longApart => exact read_apart hlong hs (Word.ofText_longName s)
  | longJoined => exact .cons (Word.ofText_longName_equals s value) .nil

theorem Form.collect_words {choices : List String} {beside : Bool} {taken : Taken}
    (hs : s.takesValue = true) (rest : List Word) :
    Taken.collect choices beside taken (form.words s value ++ rest) = (do
      let taken ← taken.assign choices value s
      Taken.collect choices false taken rest) := by
  have hapart : Taken.collect choices beside taken (wordsApart s value ++ rest) = (do
      let taken ← taken.assign choices value s
      Taken.collect choices false taken rest) := by
    unfold wordsApart
    split
    · rfl
    · rw [List.cons_append, List.singleton_append, Taken.collect]
      exact hs
  cases form with
  | shortApart => exact hapart
  | shortJoined => rfl
  | longApart => exact hapart
  | longJoined => rfl

end ArithAsm.CommandLine
