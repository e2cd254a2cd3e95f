import ArithAsm.Proofs.Token.Lexes

/-!
# Where the scanner stops

A scan that fails has got through a front of the characters that has tokens of its own, and what is
behind the front cannot be read: a character that is not of the alphabet, or a run of digits that is
no literal (`Token.stops_of_scan`).  So the error points at a character of the source
(`Token.Stops.position_cases`), and too many digits are those of a run
(`Token.Stops.exists_digitRun`).
-/

namespace ArithAsm.Token

/-- **The scanner stops,** with the error, in the characters `cs` that stand behind a place. -/
inductive Stops (place : Place) (cs : List Char) : LexError → Prop
  /-- The character starts no token. -/
  | illegal {front back : List Char} {c : Char} (hsplit : cs = front ++ c :: back)
      (hfront : Lexable front) (hlayout : c ∉ layout) (hdigit : c.isDigit = false)
      (hsymbol : c ∉ symbols) :
      Stops place cs (.illegalCharacter c (place.skip front).bytes (place.skip front).chars)
  /-- The run of digits is no literal. -/
  | literal {front run back : List Char} {e : LexError} (hrun : IsDigitRun cs front run back)
      (hfront : Lexable front) (h : literal run (place.skip front).chars = .error e) :
      Stops place cs e

variable {place : Place} {read : List Token} {cs run back : List Char} {c : Char} {e : LexError}
  {position : Nat}

/-- **A run of digits is no literal** if it is too long, or denotes too large a number. -/
theorem literal_eq_error_iff : literal run position = .error e ↔
    (maxDigits < run.length ∧ e = .tooManyDigits run.length) ∨
      (run.length ≤ maxDigits ∧ maxLiteral < Nat.ofDigitChars 10 run 0 ∧
        e = .outOfRange (String.ofList run) position) := by
  rw [literal]
  by_cases hlength : maxDigits < run.length
  · rw [if_pos hlength]
    simp [hlength, Nat.not_le.mpr hlength, eq_comm]
  rw [if_neg hlength]
  by_cases hvalue : maxLiteral < Nat.ofDigitChars 10 run 0
  · simp [hlength, Nat.not_lt.mp hlength, hvalue, eq_comm]
  · simp [hlength, hvalue]

/-! ### One step of a scan -/

theorem Place.skip_append (place : Place) (run front : List Char) :
    place.skip (run ++ front) = (place.skip run).skip front :=
  List.foldl_append

theorem lexable_append {front : List Char} (hrun : IsDigitRun cs [] run back)
    (hlimits : InLimits run) (hfront : Lexable front) (hbegin : front <+: back) :
    Lexable (run ++ front) := by
  have hends : IsDigitRun (run ++ front) [] run front := by
    refine ⟨rfl, hrun.nonempty, hrun.digits, nofun, fun d hd => hrun.behind d ?_⟩
    obtain ⟨more, rfl⟩ := hbegin
    rw [List.head?_append, hd]
    rfl
  exact (lexable_run_iff hends).mpr ⟨hlimits, hfront⟩

namespace Stops

theorem cons (hc : c ∈ layout ∨ c ∈ symbols) (h : Stops (place.next c) cs e) :
    Stops place (c :: cs) e := by
  have hdigit : c.isDigit = false := hc.elim isDigit_of_layout isDigit_of_symbols
  cases h with
  | @illegal front back d hsplit hfront hlayout hd hsymbol =>
    have hlexable : Lexable (c :: front) := (lexable_cons_iff hdigit).mpr ⟨hc, hfront⟩
    exact .illegal (congrArg (c :: ·) hsplit) hlexable hlayout hd hsymbol
  | @literal front run back _ hrun hfront h =>
    have hlexable : Lexable (c :: front) := (lexable_cons_iff hdigit).mpr ⟨hc, hfront⟩
    have hlonger : IsDigitRun (c :: cs) (c :: front) run back :=
      (IsDigitRun.cons_iff hdigit).mpr ⟨front, rfl, hrun⟩
    exact .literal hlonger hlexable h

theorem of_digitRun (hrun : IsDigitRun cs [] run back) (hlimits : InLimits run)
    (h : Stops (place.skip run) back e) : Stops place cs e := by
  have hcs : cs = run ++ back := hrun.split
  cases h with
  | @illegal front back' d hsplit hfront hlayout hd hsymbol =>
    have hlexable := lexable_append hrun hlimits hfront ⟨_, hsplit.symm⟩
    have hsplit' : cs = (run ++ front) ++ d :: back' := by
      rw [hcs, hsplit, List.append_assoc]
    rw [← Place.skip_append]
    exact .illegal hsplit' hlexable hlayout hd hsymbol
  | @literal front run' back' _ hrun' hfront h =>
    have hlexable := lexable_append hrun hlimits hfront ⟨_, hrun'.split.symm⟩
    have hlonger : IsDigitRun cs (run ++ front) run' back' :=
      hrun.iff_of_start.mpr (Or.inr ⟨front, rfl, hrun'⟩)
    rw [← Place.skip_append] at h
    exact .literal hlonger hlexable h

end Stops

/-! ### A whole scan -/

/-- **A scan that fails** has got through all that can be read in front of where it stops. -/
theorem stops_of_scan (h : scan place read cs = .error e) : Stops place cs e := by
  fun_induction scan place read cs with
  | case1 => cases h
  | case2 place read c rest hc ih => exact (ih h).cons (Or.inl hc)
  | case3 place read c rest hc hd run e' he =>
    obtain rfl := Except.error.inj h
    exact .literal (.of_isDigit hd rest) lexable_nil he
  | case4 place read c rest hc hd run token ht ih =>
    exact (ih h).of_digitRun (.of_isDigit hd rest) (literal_eq_ok_iff.mp ht).1
  | case5 place read c rest hc hd hs ih => exact (ih h).cons (Or.inr (isSymbol_iff.mp hs))
  | case6 place read c rest hc hd hs =>
    obtain rfl := Except.error.inj h
    have hsymbol : c ∉ symbols := fun hmem => hs (isSymbol_iff.mpr hmem)
    exact @Stops.illegal place (c :: rest) [] rest c rfl lexable_nil hc
      (Bool.eq_false_iff.mpr hd) hsymbol

namespace Stops

/-- **The error points at one of the characters,** unless a run has too many digits. -/
theorem position_cases (h : Stops place cs e) :
    (∃ n, e = .tooManyDigits n) ∨
      ∃ k, k < cs.length ∧ e.position? = some (place.chars + k) := by
  cases h with
  | @illegal front back c hsplit hfront hlayout hdigit hsymbol =>
    refine Or.inr ⟨front.length, ?_, ?_⟩
    · rw [hsplit, List.length_append, List.length_cons]
      omega
    · rw [LexError.position?, Place.chars_skip]
  | @literal front run back e hrun hfront h =>
    rcases literal_eq_error_iff.mp h with ⟨-, rfl⟩ | ⟨-, -, rfl⟩
    · exact Or.inl ⟨_, rfl⟩
    · have hpos := List.length_pos_iff.mpr hrun.nonempty
      refine Or.inr ⟨front.length, ?_, ?_⟩
      · rw [hrun.split, List.length_append, List.length_append]
        omega
      · rw [LexError.position?, Place.chars_skip]

/-- **Too many digits are those of a run,** which is as long as the error says. -/
theorem exists_digitRun {n : Nat} (h : Stops place cs (.tooManyDigits n)) :
    ∃ front run back, IsDigitRun cs front run back ∧ run.length = n ∧ maxDigits < n := by
  cases h with
  | @literal front run back _ hrun hfront h =>
    rcases literal_eq_error_iff.mp h with ⟨hlong, hn⟩ | ⟨-, -, hn⟩
    · obtain rfl := LexError.tooManyDigits.inj hn
      exact ⟨front, run, back, hrun, rfl, hlong⟩
    · cases hn

end Stops

end ArithAsm.Token
