import ArithAsm.Proofs.Grammar.Places
import ArithAsm.Proofs.Run.Stages

/-!
# A source and its respelling have one program

Layout and leading zeros change the places of the tokens and the digits of the numbers, and nothing
else of them.  The parser looks at neither, and a backend does not look at the places of a tree
(`Backend.lower_eq_of_same`).  So a source and its respelling have one program in every backend, or
fail in the same way, at the same token if it is the parser that fails (`compile_of_respelled`).
-/

namespace ArithAsm

open List (Forall₂)

/-- **The failures are of one kind,** for the same reason. -/
inductive Failure.Same : Failure → Failure → Prop
  | lex {e e' : LexError} (h : e.Same e') : Same (.lex e) (.lex e')
  | parse {e e' : ParseError} (h : e.Same e') : Same (.parse e) (.parse e')
  | refl (f : Failure) : Same f f

/-- **The parser fails with the error at the token of an index,** where its cursor is left.  The
error points at this token if it points at one. -/
structure ParseError.OccursAt (limit : Nat) (e : ParseError) (ts : List Token) (index : Nat) :
    Prop where
  fails : parse limit ts = .error e
  cursor : Cursor.run (Rule.whole limit) ⟨ts, 0⟩ = (.error e, ⟨ts, index⟩)
  points : ∀ what found, e = .expected what found → ts[index]? = some found

/-! ### Programs -/

namespace Backend

theorem expression_unlocated (b : Backend) (t : Tree) :
    b.expression t.unlocated = b.expression t := by
  induction t with
  | leaf a =>
    cases a with
    | number value position =>
      rw [Tree.unlocated, Tree.number, expression_leaf, expression_leaf]
      rfl
    | placeholder kind => rfl
    | foreign text => rfl
  | node op left right position ihl ihr =>
    rw [Tree.unlocated, expression_node, expression_node, ihl, ihr]

/-- **Trees that agree up to their places have one program.** -/
theorem lower_eq_of_same (b : Backend) {t u : Tree} (h : t.Same u) : b.lower t = b.lower u := by
  have hexpression : b.expression t = b.expression u := by
    rw [← b.expression_unlocated t, h, b.expression_unlocated u]
  rw [lower, lower, body, body, hexpression]

end Backend

theorem Registry.lower_eq_of_same (r : Registry) (name : String) {t u : Tree} (h : t.Same u) :
    r.lower t name = r.lower u name := by
  rw [lower, lower]
  cases r.get? name with
  | none => rfl
  | some b => simp only [b.lower_eq_of_same h]

/-! ### Failures of the parser -/

section Parse

variable {limit : Nat} {ts us : List Token} {last last' : Token} {e : ParseError}

theorem ParseError.occursAt_of_parse (hlast : ts.getLast? = some last) (hstop : last.isStop = true)
    (h : parse limit ts = .error e) : e.OccursAt limit ts (Rule.whole limit ts).consumed := by
  refine ⟨h, ?_, ?_⟩
  · rw [parse_eq hlast hstop] at h
    simp only [Cursor.run, List.drop_zero, Nat.zero_add, h]
  · rintro what found rfl
    rcases parse_error_cases hlast hstop h with ⟨he, -⟩ | ⟨what', found', he, hfound⟩
    · cases he
    · obtain ⟨-, rfl⟩ := ParseError.expected.inj he
      exact hfound

/-- **On tokens that agree up to their places the parser fails at the same one.** -/
theorem ParseError.exists_occursAt (h : Forall₂ Token.Same ts us)
    (hlast : ts.getLast? = some last) (hstop : last.isStop = true)
    (hlast' : us.getLast? = some last') (hstop' : last'.isStop = true)
    (he : parse limit ts = .error e) :
    ∃ index e', e.OccursAt limit ts index ∧ e'.OccursAt limit us index ∧ e.Same e' := by
  have hagree := parse_agree limit h
  rw [he] at hagree
  cases hus : parse limit us with
  | ok u =>
    rw [hus] at hagree
    cases hagree
  | error e' =>
    rw [hus] at hagree
    cases hagree with
    | error hsame =>
      have hconsumed := (Rule.respects_whole limit ts us h).consumed
      have hoccurs := ParseError.occursAt_of_parse hlast' hstop' hus
      rw [← hconsumed] at hoccurs
      exact ⟨_, e', ParseError.occursAt_of_parse hlast hstop he, hoccurs, hsame⟩

end Parse

/-! ### All stages -/

theorem readTree_agree (limit : Nat) {source source' : String}
    (h : Respelled source.toList source'.toList) :
    Agree Failure.Same Tree.Same (readTree limit source) (readTree limit source') := by
  have htokens : Agree Failure.Same (Forall₂ Token.Same) ((tokenize source).mapError .lex)
      ((tokenize source').mapError .lex) := (tokenize_agree h).mapError fun _ _ => .lex
  exact htokens.bind fun _ _ hts => (parse_agree limit hts).mapError fun _ _ => .parse

/-- **Layout and leading zeros do not matter.**  A source and its respelling have one program in a
backend, or fail in the same way.  If it is the parser that fails, it does so at the same token.  It
gives trees that agree up to their places, or fails in the same way, on any tokens that agree up to
their places. -/
theorem compile_of_respelled (limit : Nat) {source source' : String}
    (h : Respelled source.toList source'.toList) :
    (∀ (r : Registry) (name : String),
      Agree Failure.Same Eq (r.compile limit source name)
        (r.compile limit source' name)) ∧
    (∀ ts e, tokenize source = .ok ts → parse limit ts = .error e →
      ∃ index ts' e', e.OccursAt limit ts index ∧ tokenize source' = .ok ts' ∧
        e'.OccursAt limit ts' index ∧
        e.Same e') ∧
    ∀ ts us, Forall₂ Token.Same ts us →
      Agree ParseError.Same Tree.Same (parse limit ts) (parse limit us) := by
  refine ⟨fun r name => ?_, fun ts e htokens he => ?_, fun ts us hts => parse_agree limit hts⟩
  · refine (readTree_agree limit h).bind fun t u htu => ?_
    rw [r.lower_eq_of_same name htu]
    cases r.lower u name with
    | ok asm => exact .ok rfl
    | error f => exact .error (.refl f)
  · have hagree := tokenize_agree h
    rw [htokens] at hagree
    cases htokens' : tokenize source' with
    | error e' =>
      rw [htokens'] at hagree
      cases hagree
    | ok ts' =>
      rw [htokens'] at hagree
      cases hagree with
      | ok hts =>
        obtain ⟨index, e', hindex, hindex', hsame⟩ := ParseError.exists_occursAt hts
          (getLast?_of_tokenize htokens) rfl (getLast?_of_tokenize htokens') rfl he
        exact ⟨index, ts', e', hindex, rfl, hindex', hsame⟩

/-- A leading zero is left out, and a blank is put to another place. -/
theorem compile_of_respelled_blank :
    Respelled "07 -1".toList "7- 1".toList ∧
      ∃ asm, Registry.builtIn.compile 120 "07 -1" "x64-linux" = .ok asm ∧
        Registry.builtIn.compile 120 "7- 1" "x64-linux" = .ok asm := by
  have hblank : ∀ d ∈ [' ', '-', '1'].head?, d.isDigit = false := by
    rintro d ⟨⟩
    rfl
  have hminus : ∀ d ∈ ['-', '1'].head?, d.isDigit = false := by
    rintro d ⟨⟩
    rfl
  have hrun : Token.IsDigitRun ['7', ' ', '-', '1'] [] ['7'] [' ', '-', '1'] :=
    ⟨rfl, List.cons_ne_nil _ _, List.forall_mem_singleton.mpr rfl, nofun, hblank⟩
  have hzero : Edit ['7', ' ', '-', '1'] ['0', '7', ' ', '-', '1'] := .zero hrun (by decide)
  have hbefore : Edit ['7', '-', '1'] ['7', ' ', '-', '1'] :=
    @Edit.layout ['7'] ['-', '1'] ' ' (by decide) (Or.inr hminus)
  have hbehind : Edit ['7', '-', '1'] ['7', '-', ' ', '1'] :=
    @Edit.layout ['7', '-'] ['1'] ' ' (by decide) (Or.inl hminus)
  have h : Respelled "07 -1".toList "7- 1".toList :=
    .trans _ _ _ (.symm _ _ (.rel _ _ hzero)) <|
      .trans _ _ _ (.symm _ _ (.rel _ _ hbefore)) (.rel _ _ hbehind)
  have hname : "x64-linux" ∈ Registry.builtIn.names := by decide
  have htree : readTree 120 "7- 1"
      = .ok (.node .sub (.number 7 (some 0)) (.number 1 (some 3)) (some 1)) :=
    readTree_of_toOption (by decide +kernel)
  obtain ⟨asm, hlower⟩ := Registry.exists_lower hname htree
  have hasm := Registry.compile_eq_ok_iff.mpr ⟨_, htree, hlower⟩
  have hagree := (compile_of_respelled 120 h).1 .builtIn "x64-linux"
  rw [hasm] at hagree
  refine ⟨h, asm, ?_, hasm⟩
  generalize Registry.builtIn.compile 120 "07 -1" "x64-linux" = x at hagree
  cases hagree with
  | ok heq => rw [heq]

end ArithAsm
