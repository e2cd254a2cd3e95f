import ArithAsm.Proofs.Run.Faults
import ArithAsm.Proofs.Token.Cover
import ArithAsm.Proofs.Token.Stops

/-!
# Where a report points

The errors of the scanner and of the parser lie within the source (`exists_position_of_lexError`,
`exists_position_of_parseError`).  If the source is the only argument, the run reports them with the
source and with a caret below the place of the error (`run_of_misread`), also if a blank was put in
front of the source for the sake of its dash: places are places in the text that was written.
-/

namespace ArithAsm

open CommandLine

/-! ### Errors within a source -/

section Position

variable {source : String}

theorem exists_position_of_lexError {e : LexError} (h : tokenize source = .error e)
    (hdigits : ∀ n, e ≠ .tooManyDigits n) :
    ∃ p, e.position? = some p ∧ p ≤ source.length := by
  have hstops : Token.Stops .start source.toList e := Token.stops_of_scan h
  rcases hstops.position_cases with ⟨n, rfl⟩ | ⟨k, hk, hposition⟩
  · exact absurd rfl (hdigits n)
  · have hstart : Token.Place.start.chars = 0 := rfl
    rw [String.length_toList] at hk
    exact ⟨Token.Place.start.chars + k, hposition, by omega⟩

theorem exists_position_of_parseError {limit : Nat} {ts : List Token} {e : ParseError}
    (htokens : tokenize source = .ok ts) (h : parse limit ts = .error e) (hdeep : e ≠ .tooDeep) :
    ∃ p : Nat, (∃ what found, e = .expected what found ∧ found.position = p) ∧
      p ≤ source.length := by
  have hcases := parse_error_cases (getLast?_of_tokenize htokens) rfl h
  obtain ⟨what, found, rfl, hfound⟩ := hcases.resolve_left fun h => hdeep h.1
  have hread : Token.IsTokenOf 0 source.toList found :=
    (tokenize_eq_ok_iff_lexes.mp htokens).mem_iff.mp (List.mem_of_getElem? hfound)
  have hlow := hread.le_position
  have hhigh := hread.position_le
  rw [String.length_toList] at hhigh
  exact ⟨found.position.toNat, ⟨what, found, rfl, by omega⟩, by omega⟩

end Position

/-! ### What a report shows -/

/-- **What stands in front of the caret** for a place of the source: as many characters as stand
before the place, with the blanks among these kept, and spaces for the others. -/
structure IsPadding (source : String) (p : Nat) (pad : String) : Prop where
  length : pad.length = p
  blank : ∀ i c, i < p → source.toList[i]? = some c → Text.isBlank c = true →
    pad.toList[i]? = some c
  other : ∀ i c, i < p → source.toList[i]? = some c → Text.isBlank c = false →
    pad.toList[i]? = some ' '

/-- The report of an error in a stage: the message, the source, and the caret behind `pad`. -/
def caretReport (source stage message pad : String) : String :=
  ("[ Fatal Error ] | " ++ ("\x7b" ++ stage ++ "\x7d \t| ") ++ message ++ "\n")
    ++ ("    " ++ source ++ "\n")
    ++ ("    " ++ pad ++ "^\n")

/-- **The run reports the error** of a stage and points at the place `p` of the source.  It prints
nothing else and changes no file. -/
def PointsAt (source stage message : String) (p : Nat) (tree : FileTree)
    (run : Except Fault (Outcome × FileTree)) : Prop :=
  p ≤ source.length ∧ ∃ pad, IsPadding source p pad ∧
    run = .ok (⟨1, "", caretReport source stage message pad⟩, tree)

theorem isPadding_padding {source : String} {p : Nat} (h : p ≤ source.length) :
    IsPadding source p (Reporter.padding source p) := by
  have hbefore : Reporter.charsBefore source.toList.length p = p := by
    rw [Reporter.charsBefore, if_neg (by omega), String.length_toList]
    omega
  have hget {i : Nat} {c : Char} (hi : i < p) (hc : source.toList[i]? = some c) :
      (Reporter.padding source p).toList[i]? = some (if Text.isBlank c then c else ' ') := by
    rw [Reporter.padding, String.toList_ofList, List.getElem?_map, hbefore,
      List.getElem?_take_of_lt hi, hc]
    rfl
  refine ⟨?_, fun i c hi hc hblank => ?_, fun i c hi hc hblank => ?_⟩
  · rw [Reporter.padding, String.length_ofList, List.length_map, hbefore, List.length_take,
      String.length_toList]
    exact Nat.min_eq_left h
  · rw [hget hi hc, if_pos hblank]
  · rw [hget hi hc, hblank]
    rfl

theorem IsPadding.unique {source pad pad' : String} {p : Nat} (hp : p ≤ source.length)
    (h : IsPadding source p pad) (h' : IsPadding source p pad') : pad = pad' := by
  refine String.toList_inj.mp (List.ext_getElem? fun i => ?_)
  have hlength : pad.toList.length = p := String.length_toList.trans h.length
  have hlength' : pad'.toList.length = p := String.length_toList.trans h'.length
  by_cases hi : i < p
  · have hbound : i < source.toList.length := by
      rw [String.length_toList]
      omega
    have hc := List.getElem?_eq_getElem hbound
    cases hblank : Text.isBlank source.toList[i] with
    | true => rw [h.blank i _ hi hc hblank, h'.blank i _ hi hc hblank]
    | false => rw [h.other i _ hi hc hblank, h'.other i _ hi hc hblank]
  · rw [List.getElem?_eq_none (by omega), List.getElem?_eq_none (by omega)]

theorem crash_character {stage : String} (hstage : stage.isEmpty = false) (source message : String)
    (p : Nat) :
    ((Reporter.start (some source)).enter (some stage)).crash ⟨message, .character p⟩
      = caretReport source stage message (Reporter.padding source p) := by
  have hbacklog : ((Reporter.start (some source)).enter (some stage)).backlogText = "" := rfl
  have hline : ((Reporter.start (some source)).enter (some stage)).fatalLine message
      = "[ Fatal Error ] | " ++ Reporter.stageMark stage ++ message ++ "\n" := by
    unfold Reporter.fatalLine Reporter.enter
    dsimp only
    rw [hstage, if_neg Bool.false_ne_true]
  have hshown : Reporter.excerpt source (.character p)
      = Reporter.echo source ++ ("    " ++ Reporter.padding source p ++ "^\n") := by
    simp only [Reporter.excerpt, String.append_assoc]
  unfold Reporter.crash
  rw [hbacklog, hline]
  dsimp only [Reporter.start, Reporter.enter]
  rw [hshown, String.empty_append, ← String.append_assoc]
  rfl

namespace Plan

theorem pointsAt_failing {f : Failure} {message stage source : String} {p : Nat} {tree : FileTree}
    (hf : f.diagnostic? = some ⟨message, .character p⟩) (hstage : stage.isEmpty = false)
    (hp : p ≤ source.length) :
    PointsAt source stage message p tree
      (runIn tree (failing (.start (some source)) stage f)) := by
  refine ⟨hp, _, isPadding_padding hp, ?_⟩
  rw [runIn_failing hf, crash_character hstage]

/-- **The report of an error points into the source as it was written,** if the source is the only
argument, and is taken for an expression: a dash in front of it stands alone or goes on like an
expression. -/
theorem run_of_misread (limit : Nat) (host : Host) (path : String) (tree : FileTree)
    {source : String} (hsource : Argument.hasDash source = true →
      source = "-" ∨ Argument.startsExpression source = true) :
    let run := runIn tree (ofArguments .builtIn limit host path [source])
    (∀ e, tokenize source = .error e → (∀ n, e ≠ .tooManyDigits n) →
      ∃ p, e.position? = some p ∧ PointsAt source "lexing" e.message p tree run) ∧
    ∀ ts e, tokenize source = .ok ts → parse limit ts = .error e → e ≠ .tooDeep →
      ∃ p : Nat, e.position? = some (p : Int) ∧
        PointsAt source "parsing" e.message p tree run := by
  intro run
  let s : Settings := ⟨source, .text Registry.defaultName, none, none⟩
  have hrun : run = runIn tree (ofSettings .builtIn limit s) :=
    congrArg (runIn tree) (ofArguments_of_ok (ofArguments_of_single host hsource))
  rw [hrun]
  refine ⟨fun e h hdigits => ?_, fun ts e htokens h hdeep => ?_⟩
  · obtain ⟨p, hposition, hp⟩ := exists_position_of_lexError h hdigits
    have hdiagnostic : (Failure.lex e).diagnostic? = some ⟨e.message, .character p⟩ := by
      rw [diagnostic?_lex hdigits, hposition]
      rfl
    rw [ofSettings_of_lexError h]
    exact ⟨p, hposition, pointsAt_failing hdiagnostic rfl hp⟩
  · obtain ⟨p, ⟨what, found, rfl, hfound⟩, hp⟩ := exists_position_of_parseError htokens h hdeep
    have hdiagnostic : (Failure.parse (.expected what found)).diagnostic?
        = some ⟨(ParseError.expected what found).message, .character p⟩ := by
      rw [Failure.diagnostic?, hfound]
    have hdump : s.dump ≠ some .tokens := by simp [s]
    rw [ofSettings_of_parseError htokens hdump h]
    exact ⟨p, congrArg some hfound, pointsAt_failing hdiagnostic rfl hp⟩

/-- A tab behind the dash, and an error at the end of the source. -/
theorem run_of_misread_dash :
    let source := "-\t(7"
    let e : ParseError := .expected "')'" (.stop 4)
    (Argument.hasDash source = true →
      source = "-" ∨ Argument.startsExpression source = true) ∧
    (∃ ts, tokenize source = .ok ts ∧ parse nestingLimit ts = .error e ∧ e ≠ .tooDeep) ∧
    runIn (.system [] [])
        (ofArguments .builtIn nestingLimit ⟨"Linux", "x86_64"⟩ "calcc" [source])
      = .ok (⟨1, "", caretReport source "parsing" e.message " \t  "⟩, .system [] []) := by
  intro source e
  have hsource : Argument.hasDash source = true →
      source = "-" ∨ Argument.startsExpression source = true := fun _ => Or.inr (by decide)
  let ts : List Token := [.ofSymbol '-' 0, .ofSymbol '(' 2, ⟨.number 7, "7", 3⟩, .stop 4]
  have htokens : tokenize source = .ok ts := by decide +kernel
  have hparse : parse nestingLimit ts = .error e := by cbv
  have hdeep : e ≠ .tooDeep := by decide
  obtain ⟨p, hposition, hp, pad, hpad, hrun⟩ :=
    (run_of_misread nestingLimit ⟨"Linux", "x86_64"⟩ "calcc" (.system [] []) hsource).2 ts e
      htokens hparse hdeep
  obtain rfl : p = 4 := (Int.ofNat_inj.mp (Option.some.inj hposition)).symm
  have hpadding : Reporter.padding source (4 : Nat) = " \t  " := by decide
  rw [hpad.unique hp (isPadding_padding hp), hpadding] at hrun
  exact ⟨hsource, ⟨ts, htokens, hparse, hdeep⟩, hrun⟩

end Plan

end ArithAsm
