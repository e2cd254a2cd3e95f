import ArithAsm.Proofs.CommandLine.Request
import ArithAsm.Proofs.Run.Stages
import ArithAsm.Proofs.Token.DigitRun

/-!
# What escapes from a run

Every run ends with one of three exit statuses, unless a failure escapes, and `run_ends` says which
failures do: a literal of so many digits that it is not even converted, a name of a file with the
character that ends names in it, and a switch that was given nothing.  All other literals that are
too large are reported, and so are all other files that cannot be written.
`run_of_long_literal` is a run of the first kind.
-/

namespace ArithAsm

open CommandLine

namespace Plan

variable {limit : Nat} {host : Host} {path : String} {args : List String} {tree : FileTree}
  {s : Settings}

theorem ofArguments_of_ok (h : Settings.ofArguments .builtIn host args = .ok s) :
    ofArguments .builtIn limit host path args = ofSettings .builtIn limit s := by
  rw [ofArguments, h]

theorem exit_outcome (r : Registry) (path : String) (stop : Stop) :
    (stop.outcome r path).exit = 0 ∨ (stop.outcome r path).exit = 2 := by
  cases stop with
  | help => exact Or.inl rfl
  | misuse e => exact Or.inr rfl

theorem isRegistered_of_builtIn (h : Settings.ofArguments .builtIn host args = .ok s) :
    s.IsRegistered .builtIn :=
  fun _ => Settings.mem_names_of_ofArguments (by decide) h

theorem runIn_of_stop {stop : Stop} (h : Settings.ofArguments .builtIn host args = .error stop) :
    runIn tree (ofArguments .builtIn limit host path args)
      = .ok (stop.outcome .builtIn path, tree) := by
  simp only [ofArguments, h, runIn]

theorem runIn_ofArguments_eq_error_iff {f : Fault} :
    runIn tree (ofArguments .builtIn limit host path args) = .error f ↔
      ∃ s, Settings.ofArguments .builtIn host args = .ok s ∧ s.Escapes limit f := by
  rcases hsettings : Settings.ofArguments .builtIn host args with stop | s
  · rw [runIn_of_stop hsettings]
    exact ⟨nofun, nofun⟩
  · rw [ofArguments_of_ok hsettings, runIn_eq_error_iff (isRegistered_of_builtIn hsettings)]
    constructor
    · exact fun h => ⟨s, rfl, h⟩
    · rintro ⟨_, ⟨⟩, h⟩
      exact h

theorem exit_of_runIn {o : Outcome} {tree' : FileTree}
    (h : runIn tree (ofArguments .builtIn limit host path args) = .ok (o, tree')) :
    o.exit = 0 ∨ o.exit = 1 ∨ o.exit = 2 := by
  rcases hsettings : Settings.ofArguments .builtIn host args with stop | s
  · rw [runIn_of_stop hsettings] at h
    cases h
    exact (exit_outcome .builtIn path stop).imp_right Or.inr
  · rw [ofArguments_of_ok hsettings] at h
    rcases outcome_cases (isRegistered_of_builtIn hsettings) h with
      ⟨stdout, stderr, rfl, -⟩ | ⟨-, hreports⟩
    · exact Or.inl rfl
    · exact Or.inr (Or.inl hreports.exit)

theorem exists_lexError_of_not_representable (hshort : Convertible s.expression)
    (hlarge : ¬ Representable s.expression) :
    ∃ e, tokenize s.expression = .error e ∧
      runIn tree (ofSettings .builtIn limit s)
        = .ok (⟨1, "", lexReport s.expression e⟩, tree) := by
  rcases htokens : tokenize s.expression with e | ts
  · exact ⟨e, rfl, runIn_of_lexError htokens (hshort.ne_tooManyDigits htokens)⟩
  · exact absurd (representable_of_tokenize htokens) hlarge

/-- **A run ends with exit status 0, 1 or 2,** unless a failure escapes.  In particular, a literal
that is no word is reported if all literals are short enough to be converted, and a file that cannot
be opened, or not be written to its end, for whatever reason, is reported if a file can have its
name. -/
theorem run_ends (limit : Nat) (host : Host) (path : String) (args : List String)
    (tree : FileTree) :
    let run := runIn tree (ofArguments .builtIn limit host path args)
    (∀ f, run = .error f ↔
      ∃ s, Settings.ofArguments .builtIn host args = .ok s ∧ s.Escapes limit f) ∧
    (∀ o tree', run = .ok (o, tree') → o.exit = 0 ∨ o.exit = 1 ∨ o.exit = 2) ∧
    ∀ s, Settings.ofArguments .builtIn host args = .ok s →
      (Convertible s.expression → ¬ Representable s.expression →
        ∃ e, tokenize s.expression = .error e ∧
          run = .ok (⟨1, "", lexReport s.expression e⟩, tree)) ∧
      ∀ name fileName asm, s.dump = none → s.backend = .text name →
        Registry.builtIn.compile limit s.expression name = .ok asm →
        s.output = some (.text fileName) → '\x00' ∉ fileName.toList →
        ofArguments .builtIn limit host path args
            = .write fileName asm (written s.expression fileName) ∧
        (∀ e, tree.openFile fileName = .error e →
          run = .ok (⟨1, "", writeReport s.expression fileName
            ((WriteFailure.opening e).describe fileName)⟩, tree)) ∧
        let result := tree.write fileName asm
        ∀ f, result.failure = some f →
          run = .ok (⟨1, result.stdout, result.stderr ++
            writeReport s.expression fileName (f.describe fileName)⟩, result.tree) := by
  intro run
  refine ⟨fun f => runIn_ofArguments_eq_error_iff, fun o tree' => exit_of_runIn, fun s hs => ?_⟩
  have hrun : run = runIn tree (ofSettings .builtIn limit s) :=
    congrArg (runIn tree) (ofArguments_of_ok hs)
  rw [hrun]
  refine ⟨exists_lexError_of_not_representable, ?_⟩
  intro name fileName asm hdump hbackend hasm houtput hnul
  have hplan := ofSettings_of_file hdump hbackend houtput hnul hasm
  refine ⟨(ofArguments_of_ok hs).trans hplan, fun e hopen => ?_, fun f hf =>
    runIn_of_writeFailure hdump hbackend houtput hnul hasm hf⟩
  have hwrite := FileTree.write_of_openFile hopen asm
  have hreport := runIn_of_writeFailure hdump hbackend houtput hnul hasm
    (congrArg WriteResult.failure hwrite)
  simp only [hwrite, String.empty_append] at hreport
  exact hreport

/-- The settings of an expression alone.  A dash in front of it stands alone or goes on like an
expression. -/
theorem ofArguments_of_single (host : Host) {source : String}
    (h : Argument.hasDash source = true → source = "-" ∨ Argument.startsExpression source = true) :
    Settings.ofArguments .builtIn host [source]
      = .ok ⟨source, .text Registry.defaultName, none, none⟩ := by
  by_cases hdash : source = "-"
  · rw [hdash]
    rfl
  let q : Request := ⟨source, none, none, none⟩
  have hfine : ∀ g ∈ q.groups, g.Fine (backendChoices .builtIn) := by
    intro g hg
    obtain rfl : g = .expression source := List.mem_singleton.mp hg
    exact fun hhas => (h hhas).resolve_left hdash
  exact q.ofArguments_of_fine hfine nofun (List.Perm.refl _)

theorem ofArguments_of_source (host : Host) {source : String}
    (h : Argument.hasDash source = false) :
    Settings.ofArguments .builtIn host [source]
      = .ok ⟨source, .text Registry.defaultName, none, none⟩ :=
  ofArguments_of_single host fun hdash => absurd hdash (Bool.eq_false_iff.mp h)

/-- The least literal that is no word. -/
theorem run_ends_outOfRange :
    ∃ e, runIn (.system [] [])
        (ofArguments .builtIn nestingLimit ⟨"Linux", "x86_64"⟩ "calcc" ["9223372036854775808"])
      = .ok (⟨1, "", lexReport "9223372036854775808" e⟩, .system [] []) := by
  have hdash : Argument.hasDash "9223372036854775808" = false := by decide
  have hsettings := ofArguments_of_source ⟨"Linux", "x86_64"⟩ hdash
  have hdigits : ∀ c ∈ "9223372036854775808".toList, c.isDigit = true :=
    List.all_eq_true.mp (by decide)
  have hruns := Token.digitRuns_of_digits (by decide) hdigits
  have hshort : Convertible "9223372036854775808" := by
    rw [Convertible, hruns]
    decide
  have hlarge : ¬ Representable "9223372036854775808" := by
    rw [Representable, hruns]
    decide
  obtain ⟨-, -, hends⟩ := run_ends nestingLimit ⟨"Linux", "x86_64"⟩ "calcc" ["9223372036854775808"]
    (.system [] [])
  obtain ⟨e, -, hrun⟩ := (hends _ hsettings).1 hshort hlarge
  exact ⟨e, hrun⟩

theorem runIn_of_digits (limit : Nat) (host : Host) (path : String) (tree : FileTree)
    {run : List Char} (hdigits : ∀ c ∈ run, c.isDigit = true)
    (hlong : Token.maxDigits < run.length) :
    runIn tree (ofArguments .builtIn limit host path [String.ofList run])
      = .error (.failure (.lex (.tooManyDigits run.length))) := by
  have hrun : run ≠ [] := List.ne_nil_of_length_pos (by omega)
  have hdash : Argument.hasDash (String.ofList run) = false := by
    refine Bool.eq_false_iff.mpr fun hdash => ?_
    obtain ⟨cs, hcs⟩ := Argument.hasDash_iff.mp hdash
    rw [String.toList_ofList] at hcs
    have hdigit := hdigits '-' (by rw [hcs]; exact List.mem_cons_self)
    exact absurd hdigit (by decide)
  have hsettings := ofArguments_of_source host hdash
  have hliteral : Token.literal run 0 = .error (.tooManyDigits run.length) := if_pos hlong
  rw [ofArguments_of_ok hsettings]
  exact runIn_of_escapes (isRegistered_of_builtIn hsettings)
    (.digits (Token.tokenize_of_digits hrun hdigits hliteral))

/-- **A failure that is not reported:** the literal has 4301 digits. -/
theorem run_of_long_literal :
    runIn (.system [] [])
        (ofArguments .builtIn nestingLimit ⟨"Linux", "x86_64"⟩ "calcc"
          [String.ofList (List.replicate 4301 '1')])
      = .error (.failure (.lex (.tooManyDigits 4301))) := by
  have hdigits : ∀ c ∈ List.replicate 4301 '1', c.isDigit = true := fun c hc => by
    rw [List.eq_of_mem_replicate hc]
    rfl
  have hlength : (List.replicate 4301 '1').length = 4301 := List.length_replicate
  have hlong : Token.maxDigits < (List.replicate 4301 '1').length := by
    rw [hlength]
    decide
  have hrun :=
    runIn_of_digits nestingLimit ⟨"Linux", "x86_64"⟩ "calcc" (.system [] []) hdigits hlong
  rwa [hlength] at hrun

end Plan

end ArithAsm
