import ArithAsm.Proofs.Token.Lexes
import ArithAsm.Tree.Written
import Mathlib.Data.List.Chain
import Mathlib.Data.List.Forall2

/-!
# The tokens of a text made of words

A text of words with layout around them is read back word by word, if each word is the text of a
token and no two numbers stand next to each other (`exists_lexes_of_spaced`).  Without the second
condition two numbers could become one, as the layout between them may be empty.
-/

namespace ArithAsm

namespace Token

/-- A word that is a token by itself. -/
def IsSymbol (word : String) : Prop :=
  ∃ c ∈ symbols, word = String.singleton c

/-- A word that writes a number in the limits of a literal. -/
def IsNumeral (word : String) : Prop :=
  ∃ m : Nat, m ≤ maxLiteral ∧ word = toString (m : Int)

/-- The token is what a word is read as. -/
inductive Spells : Token → String → Prop
  | symbol {c : Char} (hc : c ∈ symbols) (position : Nat) :
      Spells (ofSymbol c position) (String.singleton c)
  | numeral (m : Nat) (text : String) (position : Nat) :
      Spells ⟨.number m, text, position⟩ (toString (m : Int))

variable {n : Nat} {cs : List Char} {ts : List Token} {words : List String}

/-! ### Numerals -/

theorem toList_numeral (m : Nat) : (toString (m : Int)).toList = Nat.toDigits 10 m :=
  Nat.toList_repr

theorem isDigit_of_mem_numeral {m : Nat} {c : Char} (h : c ∈ Nat.toDigits 10 m) :
    c.isDigit = true :=
  Nat.isDigit_of_mem_toDigits (by decide) (by decide) h

theorem inLimits_numeral {m : Nat} (h : m ≤ maxLiteral) : InLimits (Nat.toDigits 10 m) := by
  refine ⟨?_, by rwa [Nat.ofDigitChars_ten_toDigits]⟩
  have hlt : m < 10 ^ 19 := by
    unfold maxLiteral at h
    omega
  have hlength : (Nat.toDigits 10 m).length ≤ 19 :=
    (Nat.length_toDigits_le_iff (by decide) (by decide)).mpr hlt
  unfold maxDigits Text.maxDigits
  omega

theorem not_isSymbol_numeral (m : Nat) : ¬ IsSymbol (toString (m : Int)) := by
  rintro ⟨c, hc, heq⟩
  have hlist := congrArg String.toList heq
  rw [toList_numeral, String.toList_singleton] at hlist
  have hdigit : c.isDigit = true := isDigit_of_mem_numeral (hlist ▸ List.mem_singleton_self c)
  rw [isDigit_of_symbols hc] at hdigit
  cases hdigit

/-! ### Words and tokens -/

theorem spells_numeral (m position : Nat) :
    Spells (ofRun (Nat.toDigits 10 m) position) (toString (m : Int)) := by
  rw [ofRun, Nat.ofDigitChars_ten_toDigits]
  exact .numeral m _ position

theorem kind_of_spells {token : Token} {m : Nat} (h : Spells token (toString (m : Int))) :
    token.kind = .number m := by
  generalize hword : toString (m : Int) = word at h
  cases h with
  | @symbol c hc position => exact absurd ⟨c, hc, hword⟩ (not_isSymbol_numeral m)
  | numeral k text position =>
    have hdigits : Nat.toDigits 10 m = Nat.toDigits 10 k := by
      rw [← toList_numeral, ← toList_numeral, hword]
    have hvalue := congrArg (fun run => Nat.ofDigitChars 10 run 0) hdigits
    simp only [Nat.ofDigitChars_ten_toDigits] at hvalue
    rw [hvalue]

theorem isReserved_of_spells {token : Token} {word : String} (h : Spells token word)
    (hword : IsSymbol word) : token.isReserved word = true := by
  cases h with
  | symbol hc position => simp [isReserved, ofSymbol]
  | numeral m text position => exact absurd hword (not_isSymbol_numeral m)

/-! ### Texts -/

theorem Lexes.gap {gap : List Char} (hgap : ∀ c ∈ gap, c ∈ Token.layout)
    (h : Lexes (n + gap.length) cs ts) : Lexes n (gap ++ cs) ts := by
  induction gap generalizing n with
  | nil => exact h
  | cons c gap ih =>
    obtain ⟨hc, hgap⟩ := List.forall_mem_cons.mp hgap
    rw [List.length_cons, ← Nat.add_assoc, Nat.add_right_comm] at h
    exact .layout hc (ih hgap h)

theorem isDigit_head_of_spaced (h : Spaced words cs) (hfirst : ∀ w ∈ words.head?, IsSymbol w) :
    ∀ c ∈ cs.head?, c.isDigit = false := by
  intro c hc
  cases h with
  | nil hg => exact isDigit_of_layout (hg c (List.mem_of_head? hc))
  | @cons word words gap text hg _ =>
    obtain ⟨d, hd, rfl⟩ := hfirst word rfl
    rcases gap with _ | ⟨e, gap⟩
    · rw [List.nil_append, String.toList_singleton] at hc
      cases hc
      exact isDigit_of_symbols hd
    · cases hc
      exact isDigit_of_layout (hg c List.mem_cons_self)

/-- **A text made of words is read back word by word.** -/
theorem exists_lexes_of_spaced (h : Spaced words cs)
    (hwords : ∀ w ∈ words, IsSymbol w ∨ IsNumeral w)
    (hchain : words.IsChain fun v w => IsSymbol v ∨ IsSymbol w) :
    ∃ ts, List.Forall₂ Spells ts words ∧ Lexes n cs (ts ++ [stop (n + cs.length)]) := by
  induction h generalizing n with
  | @nil gap hg =>
    have hstop : Lexes n (gap ++ []) [stop (n + gap.length)] := Lexes.gap hg (.stop _)
    rw [List.append_nil] at hstop
    exact ⟨[], .nil, hstop⟩
  | @cons word words gap text hg hspaced ih =>
    obtain ⟨hword, hwords⟩ := List.forall_mem_cons.mp hwords
    rw [List.isChain_cons] at hchain
    obtain ⟨hnext, hchain⟩ := hchain
    obtain ⟨ts, hspells, hlexes⟩ := ih (n := n + gap.length + word.toList.length) hwords hchain
    have hlength : n + gap.length + word.toList.length + text.length
        = n + (gap ++ (word.toList ++ text)).length := by
      simp only [List.length_append]
      omega
    rw [hlength] at hlexes
    rcases hword with ⟨c, hc, rfl⟩ | ⟨m, hm, rfl⟩
    · rw [String.toList_singleton] at hlexes ⊢
      exact ⟨_, .cons (.symbol hc (n + gap.length)) hspells, .gap hg (.symbol hc hlexes)⟩
    · -- the word behind a number is none, so that the digits end here
      have hfirst : ∀ w ∈ words.head?, IsSymbol w := fun w hw =>
        (hnext w hw).resolve_left (not_isSymbol_numeral m)
      rw [toList_numeral] at hlexes ⊢
      have hrun : IsDigitRun (Nat.toDigits 10 m ++ text) [] (Nat.toDigits 10 m) text :=
        ⟨rfl, Nat.toDigits_ne_nil, fun c => isDigit_of_mem_numeral, nofun,
          isDigit_head_of_spaced hspaced hfirst⟩
      exact ⟨_, .cons (spells_numeral m (n + gap.length)) hspells,
        .gap hg (.number hrun (inLimits_numeral hm) hlexes)⟩

end Token

end ArithAsm
