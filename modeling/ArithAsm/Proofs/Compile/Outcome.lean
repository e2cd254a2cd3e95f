import ArithAsm.Proofs.Grammar.Bounds
import ArithAsm.Proofs.Grammar.RoundTrip
import ArithAsm.Proofs.Run.Stages
import ArithAsm.Proofs.Token.Stops

/-!
# What can become of a source

A source has a program, or it is the source that is wrong: it cannot be taken apart into tokens, or
a token of it cannot stand where it does, or its parentheses nest too deep (`Failure.OfSource`).
Nothing else can go wrong in the stages (`compile_outcome`): the parser never leaves the tokens and
never meets an operator it does not know, and the tree it gives has numbers for leaves, all of them
so small that every backend has instructions for them and that only a division has no value.
-/

namespace ArithAsm

open Rule

/-- **The source itself is the reason of the failure,** for a parser that keeps track of `limit`
open parentheses. -/
inductive Failure.OfSource (limit : Nat) (source : String) : Failure → Prop
  /-- A character or a literal that cannot be read. -/
  | lex {e : LexError} (h : Token.Stops .start source.toList e)
      (hdigits : ∀ n, e ≠ .tooManyDigits n) : OfSource limit source (.lex e)
  /-- A literal with too many digits. -/
  | digits {front run back : List Char} (hrun : Token.IsDigitRun source.toList front run back)
      (hlong : Token.maxDigits < run.length) :
      OfSource limit source (.lex (.tooManyDigits run.length))
  /-- A token in the place of another one. -/
  | expected {ts : List Token} {what : String} {found : Token} (htokens : tokenize source = .ok ts)
      (hfound : found ∈ ts) : OfSource limit source (.parse (.expected what found))
  /-- Parentheses that nest too deep. -/
  | tooDeep (hdeep : limit < deepestOpen 0 source.toList) :
      OfSource limit source (.parse .tooDeep)

variable {limit : Nat} {source name : String}

/-! ### The failures of the stages -/

theorem ofSource_of_tokenize {e : LexError} (h : tokenize source = .error e) :
    (Failure.lex e).OfSource limit source := by
  have hstops : Token.Stops .start source.toList e := Token.stops_of_scan h
  by_cases hdigits : ∃ n, e = .tooManyDigits n
  · obtain ⟨n, rfl⟩ := hdigits
    obtain ⟨front, run, back, hrun, rfl, hlong⟩ := hstops.exists_digitRun
    exact .digits hrun hlong
  · exact .lex hstops fun n hn => hdigits ⟨n, hn⟩

theorem ofSource_of_parse {ts : List Token} {e : ParseError} (htokens : tokenize source = .ok ts)
    (h : parse limit ts = .error e) : (Failure.parse e).OfSource limit source := by
  have hcases := parse_error_cases (getLast?_of_tokenize htokens) rfl h
  rcases hcases with ⟨rfl, hdeep⟩ | ⟨what, found, rfl, hfound⟩
  · rw [(tokenize_eq_ok_iff_lexes.mp htokens).deepest_eq] at hdeep
    exact .tooDeep hdeep
  · exact .expected htokens (List.mem_of_getElem? hfound)

theorem ofSource_of_readTree {f : Failure} (h : readTree limit source = .error f) :
    f.OfSource limit source := by
  rcases htokens : tokenize source with e | ts
  · rw [readTree, htokens] at h
    obtain rfl := Except.error.inj h
    exact ofSource_of_tokenize htokens
  · rw [readTree_eq_of_tokenize htokens] at h
    rcases hparse : parse limit ts with e | t <;> rw [hparse] at h
    · obtain rfl := Except.error.inj h
      exact ofSource_of_parse htokens hparse
    · cases h

/-- **A source has a program in a registered backend,** or it is wrong itself. -/
theorem Registry.compile_cases {r : Registry} (hname : name ∈ r.names) :
    (∃ asm, r.compile limit source name = .ok asm) ∨
      ∃ f, r.compile limit source name = .error f ∧ f.OfSource limit source := by
  rcases htree : readTree limit source with f | t
  · refine Or.inr ⟨f, ?_, ofSource_of_readTree htree⟩
    rw [compile, htree]
    rfl
  · obtain ⟨asm, hlower⟩ := exists_lower hname htree
    exact Or.inl ⟨asm, compile_eq_ok_iff.mpr ⟨t, htree, hlower⟩⟩

/-! ### The tree of a source -/

theorem Token.Lexes.nonneg {n : Nat} {cs : List Char} {ts : List Token} (h : Lexes n cs ts) :
    ∀ token ∈ ts, ∀ v, token.kind = .number v → 0 ≤ v := by
  induction h with
  | stop n => exact List.forall_mem_singleton.mpr nofun
  | layout hc _ ih => exact ih
  | symbol hc _ ih => exact List.forall_mem_cons.mpr ⟨nofun, ih⟩
  | number hrun hlimits _ ih =>
    refine List.forall_mem_cons.mpr ⟨fun v hv => ?_, ih⟩
    obtain rfl := TokenKind.number.inj hv
    exact Int.natCast_nonneg _

/-- **The leaves of the tree of a source are numbers that a source can write.** -/
theorem isWritable_of_readTree {t : Tree} (h : readTree limit source = .ok t) :
    t.AllNumbers IsWritable := by
  obtain ⟨ts, htokens, hparse⟩ := exists_of_readTree h
  have hnonneg := (tokenize_eq_ok_iff_lexes.mp htokens).nonneg
  have hword : ∀ token ∈ ts, token.HoldsWord :=
    Token.holdsWord_of_scan (fun _ ht => by cases ht) htokens
  refine (derives_of_parse hparse).allNumbers (by decide) fun token ht v hv => ?_
  have hmem : token ∈ ts := (List.takeWhile_sublist _).subset ht
  exact ⟨hnonneg token hmem v hv, (hword token hmem v hv).2⟩

/-! ### All stages -/

/-- **The stages do not fail but for the source.**  A source has a program in every registered
backend, or it is wrong itself.  The tree of a source has only numbers for leaves, each of them a
numeral of the source or the zero of a sign; it has a text, and it has a value unless it divides by
zero.  The parser stays on the tokens of the source: what would stand behind the last of them has no
influence on where it goes and what it gives. -/
theorem compile_outcome {r : Registry} (hname : name ∈ r.names) :
    ((∃ asm, r.compile limit source name = .ok asm) ∨
      ∃ f, r.compile limit source name = .error f ∧ f.OfSource limit source) ∧
    (∀ t, readTree limit source = .ok t → t.AllNumbers IsWritable ∧
      (∃ text, t.print = .ok text) ∧
      ((∃ v, t.value = .ok v) ∨ t.value = .error .divisionByZero)) ∧
    ∀ ts, tokenize source = .ok ts →
      let run := Cursor.run (whole limit) ⟨ts, 0⟩
      parse limit ts = run.1 ∧ run.2.index < ts.length ∧ ∀ more,
        Cursor.run (whole limit) ⟨ts ++ more, 0⟩ = (run.1, ⟨ts ++ more, run.2.index⟩) := by
  refine ⟨Registry.compile_cases hname, fun t htree => ?_, fun ts htokens => ?_⟩
  · have hnumbers := isWritable_of_readTree htree
    exact ⟨hnumbers, exists_print_of_readTree htree, Tree.value_of_allNumbers hnumbers⟩
  · intro run
    have hlast := getLast?_of_tokenize htokens
    have hbounds := inBounds_whole limit
    refine ⟨parse_eq hlast rfl, ?_, fun more => ?_⟩
    · have hlt := hbounds.consumed_lt hlast rfl
      simpa [run, Cursor.run] using hlt
    · have happend := eq_of_append hbounds (local_whole limit) hlast rfl more
      simp only [run, Cursor.run, List.drop_zero, happend]

/-- A program that divides by zero when it runs. -/
theorem compile_outcome_division :
    let t : Tree := .node .div (.number 1 (some 0))
      (.node .sub (.number 2 (some 3)) (.number 2 (some 5)) (some 4)) (some 1)
    "arm64-apple-darwin" ∈ Registry.builtIn.names ∧ readTree 120 "1/(2-2)" = .ok t ∧
      (∃ asm, Registry.builtIn.compile 120 "1/(2-2)" "arm64-apple-darwin" = .ok asm) ∧
      t.AllNumbers IsWritable ∧ (∃ text, t.print = .ok text) ∧
      t.value = .error .divisionByZero := by
  intro t
  have hname : "arm64-apple-darwin" ∈ Registry.builtIn.names := by decide
  have htree : readTree 120 "1/(2-2)" = .ok t := readTree_of_toOption (by decide +kernel)
  have houtcome := @compile_outcome 120 "1/(2-2)" "arm64-apple-darwin" .builtIn hname
  obtain ⟨hnumbers, hprint, -⟩ := houtcome.2.1 t htree
  have hvalue : t.value = .error .divisionByZero := by decide +kernel
  refine ⟨hname, htree, houtcome.1.resolve_right ?_, hnumbers, hprint, hvalue⟩
  rintro ⟨f, hf, -⟩
  obtain ⟨asm, hlower⟩ := Registry.exists_lower hname htree
  cases hf.symm.trans (Registry.compile_eq_ok_iff.mpr ⟨t, htree, hlower⟩)

end ArithAsm
