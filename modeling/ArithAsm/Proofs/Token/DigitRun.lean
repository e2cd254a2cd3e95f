import ArithAsm.Token.Scan
import Mathlib.Data.List.TakeWhile

/-!
# The literals of a source

The scanner makes a literal of every run of digits, as long as it gets (`Token.digitRuns`), and
takes it if it is within two limits (`Token.literal_eq_ok_iff`).  In a source that has tokens every
run denotes a word (`representable_of_tokenize`), and too many digits are only met in a source with
a run of too many (`Convertible.ne_tooManyDigits`).
-/

namespace ArithAsm

namespace Token

variable {place : Place} {read ts : List Token} {cs run : List Char} {position n : Nat}

/-- The runs of digits, each as long as it gets. -/
def digitRuns : List Char → List (List Char)
  | [] => []
  | c :: rest =>
    if c.isDigit then
      (c :: rest.takeWhile Char.isDigit) :: digitRuns (rest.dropWhile Char.isDigit)
    else digitRuns rest
termination_by cs => cs.length
decreasing_by
  · exact Nat.lt_succ_of_le (List.dropWhile_sublist _).length_le
  · simp

theorem not_isDigit_of_layout {c : Char} (h : c ∈ layout) : ¬ c.isDigit = true := by
  have hnone : layout.all (!·.isDigit) = true := by decide
  simpa using List.all_eq_true.mp hnone c h

/-- A run of digits that is not too long to be converted and not too large for a word. -/
def InLimits (run : List Char) : Prop :=
  run.length ≤ maxDigits ∧ Nat.ofDigitChars 10 run 0 ≤ maxLiteral

/-- The token of a run of digits. -/
def ofRun (run : List Char) (position : Nat) : Token :=
  ⟨.number (Nat.ofDigitChars 10 run 0), String.ofList run, position⟩

theorem literal_eq_ok_iff {t : Token} :
    literal run position = .ok t ↔ InLimits run ∧ t = ofRun run position := by
  unfold literal InLimits ofRun
  by_cases hlength : run.length > maxDigits
  · simp only [if_pos hlength, reduceCtorEq, false_iff]
    omega
  by_cases hvalue : Nat.ofDigitChars 10 run 0 > maxLiteral
  · simp only [if_neg hlength, if_pos hvalue, reduceCtorEq, false_iff]
    omega
  · simp only [if_neg hlength, if_neg hvalue, Except.ok.injEq, eq_comm (a := t)]
    exact ⟨fun h => ⟨⟨by omega, by omega⟩, h⟩, fun h => h.2⟩

theorem lt_of_literal (h : literal run position = .error (.tooManyDigits n)) :
    maxDigits < run.length := by
  unfold literal at h
  split at h
  · assumption
  · simp only at h
    split at h <;> cases h

/-- **Every run of digits denotes a word** if the scan gets through. -/
theorem le_of_scan (h : scan place read cs = .ok ts) :
    ∀ run ∈ digitRuns cs, Nat.ofDigitChars 10 run 0 ≤ maxLiteral := by
  fun_induction scan place read cs with
  | case1 place read =>
    rw [digitRuns]
    exact nofun
  | case2 place read c rest hc ih =>
    rw [digitRuns, if_neg (not_isDigit_of_layout hc)]
    exact ih h
  | case3 => cases h
  | case4 place read c rest hc hd run token ht ih =>
    rw [digitRuns, if_pos hd]
    exact List.forall_mem_cons.mpr ⟨(literal_eq_ok_iff.mp ht).1.2, ih h⟩
  | case5 place read c rest hc hd hs ih =>
    rw [digitRuns, if_neg hd]
    exact ih h
  | case6 => cases h

/-- **A scan that is stopped by too many digits** has met a run of so many. -/
theorem exists_run_of_scan (h : scan place read cs = .error (.tooManyDigits n)) :
    ∃ run ∈ digitRuns cs, maxDigits < run.length := by
  fun_induction scan place read cs with
  | case1 => cases h
  | case2 place read c rest hc ih =>
    rw [digitRuns, if_neg (not_isDigit_of_layout hc)]
    exact ih h
  | case3 place read c rest hc hd run e he =>
    obtain rfl := Except.error.inj h
    rw [digitRuns, if_pos hd]
    exact ⟨run, List.mem_cons_self, lt_of_literal he⟩
  | case4 place read c rest hc hd run token ht ih =>
    rw [digitRuns, if_pos hd]
    obtain ⟨run', hrun', hlong⟩ := ih h
    exact ⟨run', List.mem_cons_of_mem _ hrun', hlong⟩
  | case5 place read c rest hc hd hs ih =>
    rw [digitRuns, if_neg hd]
    exact ih h
  | case6 => cases h

/-! ### One run -/

section Run

variable (hrun : run ≠ []) (hdigits : ∀ c ∈ run, c.isDigit = true)

include hrun hdigits

theorem digitRuns_of_digits : digitRuns run = [run] := by
  obtain ⟨c, rest, rfl⟩ := List.exists_cons_of_ne_nil hrun
  obtain ⟨hc, hrest⟩ := List.forall_mem_cons.mp hdigits
  rw [digitRuns, if_pos hc, List.takeWhile_eq_self_iff.mpr hrest,
    List.dropWhile_eq_nil_iff.mpr hrest, digitRuns]

theorem tokenize_of_digits {e : LexError} (h : literal run 0 = .error e) :
    tokenize (String.ofList run) = .error e := by
  obtain ⟨c, rest, rfl⟩ := List.exists_cons_of_ne_nil hrun
  obtain ⟨hc, hrest⟩ := List.forall_mem_cons.mp hdigits
  have hlayout : c ∉ layout := fun hmem => not_isDigit_of_layout hmem hc
  rw [tokenize, String.toList_ofList, scan, if_neg hlayout, if_pos hc]
  simp only [List.takeWhile_eq_self_iff.mpr hrest, Place.start, h]

end Run

end Token

/-! ### Sources -/

/-- Every literal of the source is short enough to be converted. -/
def Convertible (source : String) : Prop :=
  ∀ run ∈ Token.digitRuns source.toList, run.length ≤ Token.maxDigits

/-- Every literal of the source is a word. -/
def Representable (source : String) : Prop :=
  ∀ run ∈ Token.digitRuns source.toList, Nat.ofDigitChars 10 run 0 ≤ Token.maxLiteral

variable {source : String}

theorem Convertible.ne_tooManyDigits {e : LexError} (h : Convertible source)
    (htokens : tokenize source = .error e) (n : Nat) : e ≠ .tooManyDigits n := by
  rintro rfl
  obtain ⟨run, hrun, hlong⟩ := Token.exists_run_of_scan htokens
  exact absurd (h run hrun) (Nat.not_le.mpr hlong)

theorem representable_of_tokenize {ts : List Token} (h : tokenize source = .ok ts) :
    Representable source :=
  Token.le_of_scan h

end ArithAsm
