import ArithAsm.Proofs.Assembly.Code
import ArithAsm.Proofs.Grammar.Literals
import ArithAsm.Proofs.Result
import ArithAsm.Proofs.Run.Files
import ArithAsm.Proofs.Tree.Readable
import ArithAsm.Proofs.Tree.Value
import ArithAsm.Run

/-!
# A run, stage by stage

What a run for some settings does once it is known how each stage ends.  There are three ways for
it to end: the settings are met (`Settings.Meets`), a failure escapes (`Settings.Escapes`), or a
stage fails (`Settings.Fails`) and the failure is reported, with exit status 1 and nothing printed
or written, unless the output was opened before it failed (`Reports`).  There is no other way
(`ends_ofSettings`), so each of the three is known from how the run ends (`runIn_eq_error_iff`,
`outcome_cases`).
-/

namespace ArithAsm

open CommandLine

/-! ### Failures of the stages -/

section Failures

variable {limit : Nat} {source : String}

theorem diagnostic?_lex {e : LexError} (hdigits : ∀ n, e ≠ .tooManyDigits n) :
    (Failure.lex e).diagnostic? = some ⟨e.message, Failure.spotAt e.position?⟩ := by
  cases e with
  | illegalCharacter => rfl
  | outOfRange => rfl
  | tooManyDigits n => exact absurd rfl (hdigits n)

theorem exists_diagnostic_of_parse {ts : List Token} {e : ParseError}
    (htokens : tokenize source = .ok ts) (h : parse limit ts = .error e) :
    ∃ d, (Failure.parse e).diagnostic? = some d := by
  have hcases := parse_error_cases (getLast?_of_tokenize htokens) rfl h
  rcases hcases with ⟨rfl, -⟩ | ⟨what, found, rfl, -⟩
  · exact ⟨_, rfl⟩
  · exact ⟨_, rfl⟩

theorem readTree_eq_of_tokenize {ts : List Token} (h : tokenize source = .ok ts) :
    readTree limit source = (parse limit ts).mapError .parse := by
  rw [readTree, h]
  rfl

theorem evaluate_eq_ok_iff {v : Int} :
    evaluate limit source = .ok v ↔ ∃ t, readTree limit source = .ok t ∧ t.value = .ok v := by
  simp only [evaluate, bind_eq_ok_iff, mapError_eq_ok_iff]

namespace Registry

variable {r : Registry} {name : String}

theorem compile_eq_ok_iff {asm : String} :
    r.compile limit source name = .ok asm ↔
      ∃ t, readTree limit source = .ok t ∧ r.lower t name = .ok asm := by
  simp only [compile, bind_eq_ok_iff]

/-- A program that some runs write. -/
theorem compile_seven :
    builtIn.compile nestingLimit "7" "x64-linux"
      = .ok "\t.text\n\t.globl\tmain\nmain:\n\tpushq\t$7\n\tpopq\t%rax\n\tretq\n" :=
  compile_eq_ok_iff.mpr ⟨.number 7 (some 0), readTree_of_toOption (by decide +kernel), by rfl⟩

/-- **A registered backend has a program for every tree of a source.** -/
theorem exists_lower {t : Tree} (hname : name ∈ r.names) (ht : readTree limit source = .ok t) :
    ∃ asm, r.lower t name = .ok asm := by
  obtain ⟨b, hb⟩ : ∃ b, r.get? name = some b := by
    rw [← Option.isSome_iff_exists, get?, List.find?_isSome]
    obtain ⟨b, hb, rfl⟩ := List.mem_map.mp hname
    exact ⟨b, hb, decide_eq_true rfl⟩
  have hencodes : t.AllNumbers b.Encodes :=
    (allNumbers_of_readTree ht).mono fun _ => b.encodes_of_isWord
  refine ⟨programText (b.program t), ?_⟩
  rw [lower, hb]
  simp only [Backend.lower_eq hencodes]
  rfl

end Registry

theorem exists_print_of_readTree {t : Tree} (h : readTree limit source = .ok t) :
    ∃ text, t.print = .ok text :=
  Tree.exists_print ((allNumbers_of_readTree h).mono fun _ => Text.hasDecimal_of_isWord)

theorem Token.HoldsWord.exists_label {t : Token} (h : t.HoldsWord) :
    ∃ text, t.label = .ok text := by
  rcases hkind : t.kind with v | _ | _
  · have hv := Text.decimal_of_hasDecimal (Text.hasDecimal_of_isWord (h v hkind))
    exact ⟨"NUM " ++ toString v, by rw [label, hkind]; simp only [hv]; rfl⟩
  · exact ⟨_, by rw [label, hkind]⟩
  · exact ⟨_, by rw [label, hkind]⟩

theorem exists_labels_of_tokenize {ts : List Token} (h : tokenize source = .ok ts) :
    ∃ labels, ts.mapM Token.label = .ok labels := by
  have hword : ∀ token ∈ ts, token.HoldsWord :=
    Token.holdsWord_of_scan (fun _ ht => by cases ht) h
  exact exists_mapM_eq_ok fun token ht => (hword token ht).exists_label

end Failures

/-! ### What is asked of a run -/

/-- **The settings are met** by what comes out of the standard streams and by the files afterwards.
Every case names the stages that have to succeed and nothing else of the run. -/
inductive CommandLine.Settings.Meets (r : Registry) (limit : Nat) (s : Settings) (tree : FileTree) :
    String → String → FileTree → Prop
  /-- The tokens are printed, one on a line. -/
  | tokens {ts : List Token} {labels : List String} (hdump : s.dump = some .tokens)
      (htokens : tokenize s.expression = .ok ts) (hlabels : ts.mapM Token.label = .ok labels) :
      Meets r limit s tree (String.join (labels.map (· ++ "\n"))) "" tree
  | ast {t : Tree} {text : String} (hdump : s.dump = some .ast)
      (htree : readTree limit s.expression = .ok t) (htext : t.print = .ok text) :
      Meets r limit s tree (text ++ "\n") "" tree
  | eval {v : Int} (hdump : s.dump = some .eval) (hvalue : evaluate limit s.expression = .ok v) :
      Meets r limit s tree (toString v ++ "\n") "" tree
  /-- The program is printed. -/
  | print {name asm : String} (hdump : s.dump = none) (hbackend : s.backend = .text name)
      (houtput : s.output = none) (hasm : r.compile limit s.expression name = .ok asm) :
      Meets r limit s tree asm "" tree
  /-- The program goes to a file. -/
  | file {name fileName asm : String} {result : WriteResult} (hdump : s.dump = none)
      (hbackend : s.backend = .text name) (houtput : s.output = some (.text fileName))
      (hnul : '\x00' ∉ fileName.toList) (hasm : r.compile limit s.expression name = .ok asm)
      (hwrite : tree.write fileName asm = result) (hwell : result.failure = none)
      (hholds : tree.Holds fileName asm result) :
      Meets r limit s tree result.stdout result.stderr result.tree

/-- The backend has been registered, if there is one. -/
def CommandLine.Settings.IsRegistered (r : Registry) (s : Settings) : Prop :=
  ∀ name, s.backend = .text name → name ∈ r.names

/-- **What escapes from a run** for the settings: a literal with too many digits, and, if a program
is wanted, a switch that was given nothing or a name of a file that no file can have. -/
inductive CommandLine.Settings.Escapes (limit : Nat) (s : Settings) : Fault → Prop
  | digits {n : Nat} (h : tokenize s.expression = .error (.tooManyDigits n)) :
      Escapes limit s (.failure (.lex (.tooManyDigits n)))
  | backend {t : Tree} (hdump : s.dump = none) (htree : readTree limit s.expression = .ok t)
      (hbackend : s.backend = .nothing) : Escapes limit s .backendMissing
  | output {t : Tree} {name : String} (hdump : s.dump = none)
      (htree : readTree limit s.expression = .ok t) (hbackend : s.backend = .text name)
      (houtput : s.output = some .nothing) : Escapes limit s .outputMissing
  | nul {t : Tree} {name fileName : String} (hdump : s.dump = none)
      (htree : readTree limit s.expression = .ok t) (hbackend : s.backend = .text name)
      (houtput : s.output = some (.text fileName)) (hnul : '\x00' ∈ fileName.toList) :
      Escapes limit s .nulInName

/-- **A stage fails** for the settings, in a way that is reported. -/
inductive CommandLine.Settings.Fails (r : Registry) (limit : Nat) (s : Settings) (tree : FileTree) :
    Prop
  | lex {e : LexError} (htokens : tokenize s.expression = .error e)
      (hdigits : ∀ n, e ≠ .tooManyDigits n) : Fails r limit s tree
  | parse {ts : List Token} {e : ParseError} (hdump : s.dump ≠ some .tokens)
      (htokens : tokenize s.expression = .ok ts) (hparse : parse limit ts = .error e) :
      Fails r limit s tree
  | division {t : Tree} (hdump : s.dump = some .eval)
      (htree : readTree limit s.expression = .ok t) (hvalue : t.value = .error .divisionByZero) :
      Fails r limit s tree
  /-- There is a program, but its file cannot be opened, or not be written to its end. -/
  | unwritable {name fileName asm : String} {f : WriteFailure} (hdump : s.dump = none)
      (hbackend : s.backend = .text name) (houtput : s.output = some (.text fileName))
      (hnul : '\x00' ∉ fileName.toList) (hasm : r.compile limit s.expression name = .ok asm)
      (hwrite : (tree.write fileName asm).failure = some f) : Fails r limit s tree

/-! ### Plans -/

namespace Plan

variable {r : Registry} {limit : Nat} {s : Settings} {tree tree' : FileTree} {reporter : Reporter}

theorem runIn_failing {f : Failure} {d : Diagnostic} (h : f.diagnostic? = some d)
    (reporter : Reporter) (stage : String) (tree : FileTree) :
    runIn tree (failing reporter stage f)
      = .ok (⟨1, "", (reporter.enter (some stage)).crash d⟩, tree) := by
  rw [failing, h]
  rfl

theorem crash_ne_empty (reporter : Reporter) (d : Diagnostic) : reporter.crash d ≠ "" := by
  intro h
  rw [Reporter.crash] at h
  have hline : reporter.fatalLine d.message = "" :=
    (String.append_eq_empty_iff.mp (String.append_eq_empty_iff.mp h).1).2
  exact absurd (String.append_eq_empty_iff.mp hline).2 (by decide)

/-- **The output was cut short:** the file that the plan asks for was opened, and a front of its
contents is left. -/
def CutShort (tree : FileTree) (p : Plan) (o : Outcome) (tree' : FileTree) : Prop :=
  ∃ fileName contents resume e, p = .write fileName contents resume ∧
    (tree.write fileName contents).failure = some (.writing e) ∧
    tree.LeavesFront fileName contents (tree.write fileName contents) ∧
    o.stdout = (tree.write fileName contents).stdout ∧ tree' = (tree.write fileName contents).tree

/-- The run fails and tells so, and does nothing else but cut its output short. -/
structure Reports (tree : FileTree) (p : Plan) (o : Outcome) (tree' : FileTree) : Prop where
  run : runIn tree p = .ok (o, tree')
  exit : o.exit = 1
  stderr : o.stderr ≠ ""
  leaves : (o.stdout = "" ∧ tree' = tree) ∨ CutShort tree p o tree'

theorem exists_reports_failing {f : Failure} {d : Diagnostic} {stage : String}
    (h : f.diagnostic? = some d) : ∃ o tree', Reports tree (failing reporter stage f) o tree' :=
  ⟨_, _, runIn_failing h reporter stage tree, rfl, crash_ne_empty _ d, Or.inl ⟨rfl, rfl⟩⟩

/-- What is shown of a source that has no tokens. -/
def lexReport (source : String) (e : LexError) : String :=
  ((Reporter.start (some source)).enter (some "lexing")).crash
    ⟨e.message, Failure.spotAt e.position?⟩

/-- What is shown of a file that cannot be written, for the reason that the system gives. -/
def writeReport (source fileName reason : String) : String :=
  let reporter := ((Reporter.start (some source)).enter (some "asm wr")).log
    ("cannot write output file " ++ fileName ++ ": " ++ reason)
  (reporter.enter (some "end")).crash (.plain "error backlog at checkpoint")

/-- How a run ends that has asked for a file to be written. -/
def written (source fileName : String) : Option String → Outcome
  | none => ⟨0, "", ""⟩
  | some reason => ⟨1, "", writeReport source fileName reason⟩

/-! ### The stages before the backend -/

theorem ofSettings_of_lexError {e : LexError} (h : tokenize s.expression = .error e) :
    ofSettings r limit s = failing (.start (some s.expression)) "lexing" (.lex e) := by
  simp only [ofSettings, h]

theorem runIn_of_lexError {e : LexError} (h : tokenize s.expression = .error e)
    (hdigits : ∀ n, e ≠ .tooManyDigits n) :
    runIn tree (ofSettings r limit s) = .ok (⟨1, "", lexReport s.expression e⟩, tree) := by
  rw [ofSettings_of_lexError h]
  exact runIn_failing (diagnostic?_lex hdigits) _ _ tree

theorem ofSettings_of_parseError {ts : List Token} {e : ParseError}
    (htokens : tokenize s.expression = .ok ts) (hdump : s.dump ≠ some .tokens)
    (h : parse limit ts = .error e) :
    ofSettings r limit s = failing (.start (some s.expression)) "parsing" (.parse e) := by
  simp only [ofSettings, htokens, if_neg hdump, h]

theorem ofSettings_of_readTree {t : Tree} (hdump : s.dump ≠ some .tokens)
    (h : readTree limit s.expression = .ok t) :
    ofSettings r limit s = treating r s (.start (some s.expression)) t := by
  obtain ⟨ts, htokens, hparse⟩ := exists_of_readTree h
  simp only [ofSettings, htokens, if_neg hdump, hparse]

/-! ### The program -/

section Program

variable {t : Tree} {name fileName asm : String}

theorem ofSettings_of_lower (hdump : s.dump = none) (htree : readTree limit s.expression = .ok t)
    (hbackend : s.backend = .text name) (hasm : r.lower t name = .ok asm) :
    ofSettings r limit s = delivering (.start (some s.expression)) asm s.output := by
  have hnot : s.dump ≠ some .tokens := by
    rw [hdump]
    exact nofun
  rw [ofSettings_of_readTree hnot htree]
  simp only [treating, hdump, hbackend, hasm]

theorem ofSettings_of_file (hdump : s.dump = none) (hbackend : s.backend = .text name)
    (houtput : s.output = some (.text fileName)) (hnul : '\x00' ∉ fileName.toList)
    (hasm : r.compile limit s.expression name = .ok asm) :
    ofSettings r limit s = .write fileName asm (written s.expression fileName) := by
  obtain ⟨t, htree, hlower⟩ := Registry.compile_eq_ok_iff.mp hasm
  rw [ofSettings_of_lower hdump htree hbackend hlower, houtput]
  exact if_neg hnul

end Program

theorem runIn_of_file {name fileName asm : String} (hdump : s.dump = none)
    (hbackend : s.backend = .text name) (houtput : s.output = some (.text fileName))
    (hnul : '\x00' ∉ fileName.toList) (hasm : r.compile limit s.expression name = .ok asm) :
    let result := tree.write fileName asm
    let o := written s.expression fileName (result.failure.map (·.describe fileName))
    runIn tree (ofSettings r limit s)
      = .ok (⟨o.exit, result.stdout ++ o.stdout, result.stderr ++ o.stderr⟩, result.tree) := by
  rw [ofSettings_of_file hdump hbackend houtput hnul hasm]
  rfl

theorem runIn_of_writeFailure {name fileName asm : String} {f : WriteFailure}
    (hdump : s.dump = none) (hbackend : s.backend = .text name)
    (houtput : s.output = some (.text fileName)) (hnul : '\x00' ∉ fileName.toList)
    (hasm : r.compile limit s.expression name = .ok asm)
    (hwrite : (tree.write fileName asm).failure = some f) :
    let result := tree.write fileName asm
    runIn tree (ofSettings r limit s) = .ok (⟨1, result.stdout, result.stderr ++
      writeReport s.expression fileName (f.describe fileName)⟩, result.tree) := by
  rw [runIn_of_file hdump hbackend houtput hnul hasm]
  simp only [hwrite, Option.map_some, written, String.append_empty]

/-- **Settings that can be met are met.** -/
theorem runIn_of_meets {stdout stderr : String} (h : s.Meets r limit tree stdout stderr tree') :
    runIn tree (ofSettings r limit s) = .ok (⟨0, stdout, stderr⟩, tree') := by
  cases h with
  | tokens hdump htokens hlabels =>
    simp only [ofSettings, htokens, if_pos hdump, hlabels, printing, runIn]
  | ast hdump htree htext =>
    rw [ofSettings_of_readTree (by rw [hdump]; decide) htree]
    simp only [treating, hdump, htext, printing, runIn]
  | eval hdump hvalue =>
    obtain ⟨t, htree, hvalue⟩ := evaluate_eq_ok_iff.mp hvalue
    rw [ofSettings_of_readTree (by rw [hdump]; decide) htree]
    simp only [treating, hdump, hvalue, printing, runIn]
  | print hdump hbackend houtput hasm =>
    obtain ⟨t, htree, hlower⟩ := Registry.compile_eq_ok_iff.mp hasm
    rw [ofSettings_of_lower hdump htree hbackend hlower, houtput]
    rfl
  | file hdump hbackend houtput hnul hasm hwrite hwell =>
    rw [runIn_of_file hdump hbackend houtput hnul hasm, hwrite, hwell]
    simp only [Option.map_none, written, String.append_empty]

/-- **What escapes ends the run.** -/
theorem runIn_of_escapes {f : Fault} (hregistered : s.IsRegistered r) (h : s.Escapes limit f) :
    runIn tree (ofSettings r limit s) = .error f := by
  cases h with
  | digits h =>
    rw [ofSettings_of_lexError h]
    rfl
  | backend hdump htree hbackend =>
    rw [ofSettings_of_readTree (by rw [hdump]; decide) htree]
    simp only [treating, hdump, hbackend, runIn]
  | output hdump htree hbackend houtput =>
    obtain ⟨asm, hasm⟩ := Registry.exists_lower (hregistered _ hbackend) htree
    rw [ofSettings_of_lower hdump htree hbackend hasm, houtput]
    rfl
  | nul hdump htree hbackend houtput hnul =>
    obtain ⟨asm, hasm⟩ := Registry.exists_lower (hregistered _ hbackend) htree
    rw [ofSettings_of_lower hdump htree hbackend hasm, houtput]
    simp only [delivering, if_pos hnul, runIn]

/-- **What fails is reported.** -/
theorem exists_reports_of_fails (h : s.Fails r limit tree) :
    ∃ o tree', Reports tree (ofSettings r limit s) o tree' := by
  cases h with
  | lex htokens hdigits =>
    exact ⟨_, _, runIn_of_lexError htokens hdigits, rfl, crash_ne_empty _ _, Or.inl ⟨rfl, rfl⟩⟩
  | parse hdump htokens hparse =>
    obtain ⟨d, hd⟩ := exists_diagnostic_of_parse htokens hparse
    rw [ofSettings_of_parseError htokens hdump hparse]
    exact exists_reports_failing hd
  | division hdump htree hvalue =>
    rw [ofSettings_of_readTree (by rw [hdump]; decide) htree]
    simp only [treating, hdump, hvalue]
    exact exists_reports_failing rfl
  | @unwritable name fileName asm f hdump hbackend houtput hnul hasm hwrite =>
    have hrun : runIn tree (ofSettings r limit s) = _ :=
      runIn_of_writeFailure hdump hbackend houtput hnul hasm hwrite
    refine ⟨_, _, hrun, rfl, fun h => ?_, ?_⟩
    · exact crash_ne_empty _ _ (String.append_eq_empty_iff.mp h).2
    cases f with
    | opening e =>
      rw [FileTree.write_of_openFile (FileTree.openFile_of_write hwrite)]
      exact Or.inl ⟨rfl, rfl⟩
    | writing e =>
      exact Or.inr ⟨_, _, _, e, ofSettings_of_file hdump hbackend houtput hnul hasm, hwrite,
        FileTree.leavesFront_of_write hwrite, rfl, rfl⟩

/-! ### All the ways to end -/

/-- The ways for a run to end. -/
inductive Ends (r : Registry) (limit : Nat) (s : Settings) (tree : FileTree) : Prop
  | meets {stdout stderr : String} {tree' : FileTree} (h : s.Meets r limit tree stdout stderr tree')
  | escapes {f : Fault} (h : s.Escapes limit f)
  | fails (h : s.Fails r limit tree)

theorem ends_of_program {t : Tree} (hregistered : s.IsRegistered r) (hdump : s.dump = none)
    (htree : readTree limit s.expression = .ok t) : Ends r limit s tree := by
  rcases hbackend : s.backend with name | _
  · obtain ⟨asm, hlower⟩ := Registry.exists_lower (hregistered name hbackend) htree
    have hasm : r.compile limit s.expression name = .ok asm :=
      Registry.compile_eq_ok_iff.mpr ⟨t, htree, hlower⟩
    rcases houtput : s.output with _ | fileName | _
    · exact .meets (.print hdump hbackend houtput hasm)
    · by_cases hnul : '\x00' ∈ fileName.toList
      · exact .escapes (.nul hdump htree hbackend houtput hnul)
      · rcases hwrite : (tree.write fileName asm).failure with _ | f
        · exact .meets (.file hdump hbackend houtput hnul hasm rfl hwrite
            (FileTree.holds_of_write hwrite))
        · exact .fails (.unwritable hdump hbackend houtput hnul hasm hwrite)
    · exact .escapes (.output hdump htree hbackend houtput)
  · exact .escapes (.backend hdump htree hbackend)

theorem ends_of_readTree {t : Tree} (hregistered : s.IsRegistered r)
    (htokens : s.dump ≠ some .tokens) (htree : readTree limit s.expression = .ok t) :
    Ends r limit s tree := by
  rcases hdump : s.dump with _ | d
  · exact ends_of_program hregistered hdump htree
  cases d with
  | tokens => exact absurd hdump htokens
  | ast =>
    obtain ⟨text, htext⟩ := exists_print_of_readTree htree
    exact .meets (.ast hdump htree htext)
  | eval =>
    rcases Tree.value_of_allNumbers (allNumbers_of_readTree htree) with ⟨v, hv⟩ | hv
    · exact .meets (.eval hdump (evaluate_eq_ok_iff.mpr ⟨t, htree, hv⟩))
    · exact .fails (.division hdump htree hv)

/-- **A run meets its settings, or a failure escapes or is reported.** -/
theorem ends_ofSettings (hregistered : s.IsRegistered r) (tree : FileTree) :
    Ends r limit s tree := by
  rcases htokens : tokenize s.expression with e | ts
  · by_cases hdigits : ∃ n, e = .tooManyDigits n
    · obtain ⟨n, rfl⟩ := hdigits
      exact .escapes (.digits htokens)
    · exact .fails (.lex htokens fun n hn => hdigits ⟨n, hn⟩)
  by_cases hdump : s.dump = some .tokens
  · obtain ⟨labels, hlabels⟩ := exists_labels_of_tokenize htokens
    exact .meets (.tokens hdump htokens hlabels)
  rcases hparse : parse limit ts with e | t
  · exact .fails (.parse hdump htokens hparse)
  · have htree : readTree limit s.expression = .ok t := by
      rw [readTree_eq_of_tokenize htokens, hparse]
      rfl
    exact ends_of_readTree hregistered hdump htree

/-- **A run ends without an outcome exactly if a failure escapes.** -/
theorem runIn_eq_error_iff (hregistered : s.IsRegistered r) (f : Fault) :
    runIn tree (ofSettings r limit s) = .error f ↔ s.Escapes limit f := by
  refine ⟨fun hrun => ?_, runIn_of_escapes hregistered⟩
  cases ends_ofSettings hregistered tree with
  | meets h => cases hrun.symm.trans (runIn_of_meets h)
  | escapes h =>
    cases hrun.symm.trans (runIn_of_escapes hregistered h)
    exact h
  | fails h =>
    obtain ⟨o, tree', hreports⟩ := exists_reports_of_fails h
    cases hrun.symm.trans hreports.run

/-- **An outcome of a run:** the settings are met, or a failure was reported. -/
theorem outcome_cases (hregistered : s.IsRegistered r) {o : Outcome}
    (hrun : runIn tree (ofSettings r limit s) = .ok (o, tree')) :
    (∃ stdout stderr, o = ⟨0, stdout, stderr⟩ ∧ s.Meets r limit tree stdout stderr tree') ∨
      s.Fails r limit tree ∧ Reports tree (ofSettings r limit s) o tree' := by
  have hends : Ends r limit s tree := ends_ofSettings hregistered tree
  cases hends with
  | meets h =>
    cases hrun.symm.trans (runIn_of_meets h)
    exact Or.inl ⟨_, _, rfl, h⟩
  | escapes h => cases hrun.symm.trans (runIn_of_escapes hregistered h)
  | fails h =>
    obtain ⟨o', tree'', hreports⟩ := exists_reports_of_fails h
    cases hrun.symm.trans hreports.run
    exact Or.inr ⟨h, hreports⟩

end Plan

end ArithAsm
