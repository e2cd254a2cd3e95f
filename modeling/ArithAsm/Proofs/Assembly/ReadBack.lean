import ArithAsm.Assembly.Read
import Std.Data.String.ToInt

/-!
# A program is read back from its text

A line is *readable* (`Line.IsReadable`) if no line feed stands in it, no tab in its opcode, and
each of its operands is one that the reader does not part or join (`Line.IsOperand`); a text without
commas, brackets and line feeds is always such an operand (`Line.isOperand_of_plain`), and so is a
decimal number (`Line.isPlainText_repr`).  The text of a program of readable lines is read back as
these lines (`readProgram_programText`).
-/

namespace ArithAsm

namespace Line

/-! ### Operands -/

/-- A text that the reader takes for one operand, wherever it stands among the operands. -/
structure IsOperand (cs : List Char) : Prop where
  last : splitOperands false cs = [cs]
  before : ∀ rest, splitOperands false (cs ++ ',' :: ' ' :: rest) = cs :: splitOperands false rest
  unbroken : '\n' ∉ cs

/-- A character that does not matter to the reader of operands. -/
def IsPlainChar (c : Char) : Prop :=
  c ≠ ',' ∧ c ≠ '[' ∧ c ≠ '\n'

instance : DecidablePred IsPlainChar := fun _ => inferInstanceAs (Decidable (_ ∧ _))

/-- A text of such characters. -/
def IsPlainText (cs : List Char) : Prop :=
  ∀ c ∈ cs, IsPlainChar c

instance : DecidablePred IsPlainText := fun cs => List.decidableBAll IsPlainChar cs

theorem splitOperands_cons {c : Char} (hc : IsPlainChar c) (cs : List Char) :
    splitOperands false (c :: cs) = attach c (splitOperands false cs) := by
  have h : splitOperands false (c :: cs)
      = attach c (splitOperands (c = '[' || (false && c ≠ ']')) cs) := by
    rw [splitOperands]
    rintro rest rfl
    exact absurd rfl hc.1
  rw [h]
  simp [hc.2.1]

theorem isOperand_of_plain {cs : List Char} (h : IsPlainText cs) : IsOperand cs := by
  induction cs with
  | nil => exact ⟨rfl, fun rest => by simp [splitOperands], by simp⟩
  | cons c cs ih =>
    have hc := h c List.mem_cons_self
    obtain ⟨hlast, hbefore, hunbroken⟩ := ih fun d hd => h d (List.mem_cons_of_mem c hd)
    refine ⟨?_, fun rest => ?_, ?_⟩
    · rw [splitOperands_cons hc, hlast]
      rfl
    · rw [List.cons_append, splitOperands_cons hc, hbefore]
      rfl
    · rintro (_ | ⟨_, hm⟩)
      · exact hc.2.2 rfl
      · exact hunbroken hm

theorem isPlainChar_of_isDigit {c : Char} (h : c.isDigit = true) : IsPlainChar c := by
  refine ⟨?_, ?_, ?_⟩ <;> (rintro rfl; simp at h)

theorem isPlainText_repr (v : Int) : IsPlainText v.repr.toList := by
  intro c h
  have hdigits {n : Nat} (h : c ∈ n.repr.toList) : IsPlainChar c := by
    rw [Nat.toList_repr] at h
    exact isPlainChar_of_isDigit (Nat.isDigit_of_mem_toDigits (by decide) (by decide) h)
  rw [Int.repr_eq_if] at h
  split at h
  · exact hdigits h
  · rw [String.toList_append] at h
    rcases List.mem_append.mp h with h | h
    · rw [List.mem_singleton.mp h]
      decide
    · exact hdigits h

theorem splitOperands_intercalate : ∀ {operands : List String}, operands ≠ [] →
    (∀ o ∈ operands, IsOperand o.toList) →
    splitOperands false (", ".intercalate operands).toList = operands.map String.toList
  | [], h, _ => absurd rfl h
  | [o], _, h => by
    rw [String.toList_intercalate]
    simpa using (h o (by simp)).last
  | o :: o' :: operands, _, h => by
    have ih := splitOperands_intercalate (List.cons_ne_nil o' operands)
      fun p hp => h p (List.mem_cons_of_mem o hp)
    rw [String.toList_intercalate, List.map_cons] at ih
    rw [String.toList_intercalate, List.map_cons, List.map_cons, List.intercalate_cons_cons,
      List.append_assoc, show ", ".toList = [',', ' '] from rfl, List.cons_append,
      List.singleton_append, (h o (by simp)).before]
    exact congrArg (o.toList :: ·) ih

theorem newline_not_mem_intercalate {operands : List String}
    (h : ∀ o ∈ operands, IsOperand o.toList) : '\n' ∉ (", ".intercalate operands).toList := by
  rw [String.toList_intercalate]
  induction operands with
  | nil => simp
  | cons o operands ih =>
    have ho := (h o (by simp)).unbroken
    have ih := ih fun p hp => h p (List.mem_cons_of_mem o hp)
    cases operands with
    | nil => simpa using ho
    | cons o' operands =>
      rw [List.map_cons, List.map_cons, List.intercalate_cons_cons]
      rw [List.map_cons] at ih
      simp only [List.mem_append, not_or]
      exact ⟨⟨ho, by decide⟩, ih⟩

/-! ### Lines -/

/-- The text of the line is read back as the line. -/
def IsReadable : Line → Prop
  | label name => '\n' ∉ name.toList ∧ name.toList.head? ≠ some '\t'
  | instruction opcode operands =>
    ('\n' ∉ opcode.toList ∧ '\t' ∉ opcode.toList) ∧ ∀ o ∈ operands, IsOperand o.toList

/-- A readable line with plain operands only. -/
def IsPlain : Line → Prop
  | label name => '\n' ∉ name.toList ∧ name.toList.head? ≠ some '\t'
  | instruction opcode operands =>
    ('\n' ∉ opcode.toList ∧ '\t' ∉ opcode.toList) ∧ ∀ o ∈ operands, IsPlainText o.toList

instance : DecidablePred IsPlain
  | label _ => inferInstanceAs (Decidable (_ ∧ _))
  | instruction _ _ => inferInstanceAs (Decidable (_ ∧ _))

theorem IsPlain.isReadable {line : Line} (h : line.IsPlain) : line.IsReadable := by
  cases line with
  | label name => exact h
  | instruction opcode operands => exact ⟨h.1, fun o ho => isOperand_of_plain (h.2 o ho)⟩

theorem newline_not_mem_text {line : Line} (h : line.IsReadable) : '\n' ∉ line.text.toList := by
  cases line with
  | label name => simpa [text] using h.1
  | instruction opcode operands =>
    cases operands with
    | nil => simpa [text] using h.1.1
    | cons o operands =>
      have hops := newline_not_mem_intercalate h.2
      simpa [text] using ⟨h.1.1, by simpa using hops⟩

theorem ofText?_text {line : Line} (h : line.IsReadable) :
    ofText? line.text.toList = some line := by
  cases line with
  | label name =>
    have hne : ∀ rest, name.toList ++ [':'] ≠ '\t' :: rest := by
      intro rest he
      have hhead := h.2
      cases hn : name.toList with
      | nil => simp [hn] at he
      | cons c cs => simp_all
    have htext : (label name).text.toList = name.toList ++ [':'] := by simp [text]
    rw [htext, ofText?]
    · simp
    · exact hne
  | instruction opcode operands =>
    have htab : ∀ c ∈ opcode.toList, decide (c ≠ '\t') = true := by
      intro c hc
      rw [decide_eq_true_eq]
      rintro rfl
      exact h.1.2 hc
    cases operands with
    | nil =>
      have htext : (instruction opcode []).text.toList = '\t' :: (opcode.toList ++ []) := by
        simp [text]
      rw [htext, ofText?, List.takeWhile_append_of_pos htab, List.dropWhile_append_of_pos htab]
      simp
    | cons o operands =>
      have htext : (instruction opcode (o :: operands)).text.toList
          = '\t' :: (opcode.toList ++ '\t' :: (", ".intercalate (o :: operands)).toList) := by
        simp [text]
      have hops : (splitOperands false (", ".intercalate (o :: operands)).toList).map String.ofList
          = o :: operands := by
        rw [splitOperands_intercalate (List.cons_ne_nil o operands) h.2, List.map_map]
        simp [Function.comp_def]
      rw [htext, ofText?, List.takeWhile_append_of_pos htab, List.dropWhile_append_of_pos htab]
      simpa using hops

end Line

/-- **A program of readable lines is read back from its text.** -/
theorem readProgram_programText {lines : List Line} (h : ∀ line ∈ lines, line.IsReadable) :
    readProgram (programText lines) = some lines := by
  have hsplit : (programText lines).toList.splitOn '\n'
      = lines.map (fun line => line.text.toList) ++ [[]] := by
    induction lines with
    | nil => rfl
    | cons line lines ih =>
      have hline := Line.newline_not_mem_text (h line List.mem_cons_self)
      have ih := ih fun l hl => h l (List.mem_cons_of_mem line hl)
      have htext : (programText (line :: lines)).toList
          = line.text.toList ++ '\n' :: (programText lines).toList := by
        simp [programText, String.join_cons]
      rw [htext, List.splitOn_append_cons_self_of_not_mem hline, ih]
      rfl
  rw [readProgram, hsplit, List.dropLast_concat]
  clear hsplit
  induction lines with
  | nil => rfl
  | cons line lines ih =>
    rw [List.map_cons, List.mapM_cons, Line.ofText?_text (h line List.mem_cons_self),
      ih fun l hl => h l (List.mem_cons_of_mem line hl)]
    rfl

end ArithAsm
