import ArithAsm.Proofs.Run.Faults

/-!
# What a run that fails leaves behind

A run ends with a status other than zero exactly for the reasons `FailsWith` lists: the arguments
are no command line, or one of the stages fails.  Such a run reports on the standard error, and does
nothing else as long as every file that was opened is written to its end: it prints nothing on the
standard output and leaves every file as it was (`run_failure_leaves`).  If the output was opened,
and could then not be written to its end, a front of the program stands in its place
(`run_failure_cuts`).  A run that ends with status zero reports nothing, and nothing is on the
standard error but the program, if it was sent there.  For the one run that asks for a file, none of
this depends on why the system refuses to write it (`resume_of_write`).
-/

namespace ArithAsm

open CommandLine

/-- **Why a run fails,** with the exit status it ends with.  The arguments are no command line also
if the backend of the host is asked for and there is none. -/
inductive CommandLine.FailsWith (limit : Nat) (host : Host) (args : List String) (tree : FileTree) :
    Nat → Prop
  | usage {e : UsageError} (h : Settings.ofArguments .builtIn host args = .error (.misuse e)) :
      FailsWith limit host args tree 2
  | stage {s : Settings} (h : Settings.ofArguments .builtIn host args = .ok s)
      (hfails : s.Fails .builtIn limit tree) : FailsWith limit host args tree 1

namespace Plan

variable {r : Registry} {limit : Nat} {host : Host} {path : String} {args : List String}
  {s : Settings} {tree tree' : FileTree} {o : Outcome}

/-- **The program was sent to the standard error:** the name of the output file leads there. -/
def SentToStderr (tree : FileTree) (p : Plan) (o : Outcome) (tree' : FileTree) : Prop :=
  ∃ fileName contents resume place, p = .write fileName contents resume ∧
    tree.openFile fileName = .ok place ∧ tree.device? place = some .stderr ∧
    o = ⟨0, "", contents⟩ ∧ tree' = tree

/-! ### A run that asks for a file -/

section Write

variable {fileName contents : String} {resume : Option String → Outcome}

theorem failing_ne_write {stage : String} {f : Failure} :
    failing reporter stage f ≠ .write fileName contents resume := by
  unfold failing
  split <;> exact nofun

theorem resume_of_delivering {source asm : String} {output : Option Given}
    (h : delivering (.start (some source)) asm output = .write fileName contents resume) :
    resume = written source fileName := by
  unfold delivering at h
  split at h
  · cases h
  · cases h
  · simp only at h
    split at h
    · cases h
    · cases h
      rfl

theorem resume_of_treating {source : String} {t : Tree}
    (h : treating r s (.start (some source)) t = .write fileName contents resume) :
    resume = written source fileName := by
  unfold treating at h
  split at h
  -- nothing that is printed asks for a file
  iterate 2
    split at h
    · exact absurd h failing_ne_write
    · cases h
  split at h
  · cases h
  split at h
  · exact absurd h failing_ne_write
  · exact resume_of_delivering h

/-- A run that asks for a file ends as the answer says, whatever the answer is. -/
theorem resume_of_write (h : ofSettings r limit s = .write fileName contents resume) :
    resume = written s.expression fileName := by
  simp only [ofSettings] at h
  split at h
  · exact absurd h failing_ne_write
  split at h
  · split at h
    · exact absurd h failing_ne_write
    · cases h
  split at h
  · exact absurd h failing_ne_write
  exact resume_of_treating h

end Write

/-! ### All runs -/

theorem complaint_ne_empty (program : String) (choices : List String) (e : UsageError) :
    Usage.complaint program choices e ≠ "" := by
  intro h
  exact absurd (String.append_eq_empty_iff.mp h).2 (by decide)

theorem stderr_of_meets {stdout stderr : String} (h : s.Meets r limit tree stdout stderr tree') :
    stderr = "" ∨ SentToStderr tree (ofSettings r limit s) ⟨0, stdout, stderr⟩ tree' := by
  cases h with
  | tokens | ast | eval | print => exact Or.inl rfl
  | file hdump hbackend houtput hnul hasm hwrite hwell hholds =>
    obtain ⟨place, hopen, harrives⟩ := hholds
    by_cases hdevice : tree.device? place = some .stderr
    · have hstdout := harrives.stdout
      have hstderr := harrives.stderr
      rw [hdevice, if_neg (by decide)] at hstdout
      rw [if_pos hdevice] at hstderr
      have htree := harrives.device (by rw [hdevice]; exact nofun)
      rw [hstdout, hstderr, htree]
      exact Or.inr ⟨_, _, _, place, ofSettings_of_file hdump hbackend houtput hnul hasm, hopen,
        hdevice, rfl, rfl⟩
    · exact Or.inl (by rw [harrives.stderr, if_neg hdevice])

/-- **How a run ends:** well and without a report, or it fails. -/
theorem ends_of_runIn
    (h : runIn tree (ofArguments .builtIn limit host path args) = .ok (o, tree')) :
    let plan := ofArguments .builtIn limit host path args
    (o.exit = 0 ∧ (o.stderr = "" ∨ SentToStderr tree plan o tree')) ∨
      FailsWith limit host args tree o.exit ∧ o.stderr ≠ "" ∧
        (o.stdout = "" ∧ tree' = tree ∨ CutShort tree plan o tree') := by
  intro plan
  rcases hsettings : Settings.ofArguments .builtIn host args with (_ | e) | s
  · rw [runIn_of_stop hsettings] at h
    cases h
    exact Or.inl ⟨rfl, Or.inl rfl⟩
  · rw [runIn_of_stop hsettings] at h
    cases h
    exact Or.inr ⟨.usage hsettings, complaint_ne_empty _ _ e, Or.inl ⟨rfl, rfl⟩⟩
  · have hplan : plan = ofSettings .builtIn limit s := ofArguments_of_ok hsettings
    rw [ofArguments_of_ok hsettings] at h
    rw [hplan]
    rcases outcome_cases (isRegistered_of_builtIn hsettings) h with
      ⟨stdout, stderr, rfl, hmeets⟩ | ⟨hfails, hreports⟩
    · exact Or.inl ⟨rfl, stderr_of_meets hmeets⟩
    · rw [hreports.exit]
      exact Or.inr ⟨.stage hsettings hfails, hreports.stderr, hreports.leaves⟩

theorem exists_run_of_failsWith {status : Nat} (h : FailsWith limit host args tree status)
    (path : String) :
    ∃ o tree', runIn tree (ofArguments .builtIn limit host path args) = .ok (o, tree') ∧
      o.exit = status := by
  cases h with
  | usage h => exact ⟨_, _, runIn_of_stop h, rfl⟩
  | stage h hfails =>
    obtain ⟨o, tree', hreports⟩ := exists_reports_of_fails hfails
    rw [ofArguments_of_ok h]
    exact ⟨o, tree', hreports.run, hreports.exit⟩

theorem runIn_seven {fileName : String} (h : Settings.ofArguments .builtIn host args
      = .ok ⟨"7", .text "x64-linux", some (.text fileName), none⟩)
    (hnul : '\x00' ∉ fileName.toList) (path : String) (tree : FileTree) :
    let result := tree.write fileName
      "\t.text\n\t.globl\tmain\nmain:\n\tpushq\t$7\n\tpopq\t%rax\n\tretq\n"
    let o := written "7" fileName (result.failure.map (·.describe fileName))
    runIn tree (ofArguments .builtIn nestingLimit host path args)
      = .ok (⟨o.exit, result.stdout ++ o.stdout, result.stderr ++ o.stderr⟩, result.tree) := by
  rw [ofArguments_of_ok h]
  exact runIn_of_file rfl rfl rfl hnul Registry.compile_seven

/-- **What a run that fails leaves behind.**  The standard error is not empty.  The standard output
is, and all files are as they were, the one that was to be written included, unless it had been
opened and was cut short; then nothing else has changed.  A run fails exactly for the reasons of
`FailsWith`, and one that does not has nothing on the standard error but a program that was sent
there.  The last part says the same of a file that the system refuses to write, for whatever
reason. -/
theorem run_failure_leaves (limit : Nat) (host : Host) (path : String) (args : List String)
    (tree : FileTree) :
    let plan := ofArguments .builtIn limit host path args
    (∀ o tree', runIn tree plan = .ok (o, tree') →
      (o.exit ≠ 0 → FailsWith limit host args tree o.exit ∧ o.stderr ≠ "" ∧
        (o.stdout = "" ∧ tree' = tree ∨ CutShort tree plan o tree')) ∧
      (o.exit = 0 → o.stderr = "" ∨ SentToStderr tree plan o tree')) ∧
    (∀ status, FailsWith limit host args tree status → status ≠ 0 ∧
      ∃ o tree', runIn tree plan = .ok (o, tree') ∧ o.exit = status) ∧
    ∀ fileName contents resume, plan = .write fileName contents resume →
      resume none = ⟨0, "", ""⟩ ∧
      ∀ reason, ∃ report, report ≠ "" ∧ resume (some reason) = ⟨1, "", report⟩ := by
  intro plan
  refine ⟨fun o tree' h => ⟨fun hexit => ?_, fun hexit => ?_⟩, fun status h => ⟨?_, ?_⟩,
    fun fileName contents resume h => ?_⟩
  · exact (ends_of_runIn h).resolve_left fun hwell => hexit hwell.1
  · rcases ends_of_runIn h with hwell | ⟨hfails, -⟩
    · exact hwell.2
    · rw [hexit] at hfails
      cases hfails
  · cases h <;> decide
  · exact exists_run_of_failsWith h path
  · rcases hsettings : Settings.ofArguments .builtIn host args with stop | s
    · have hplan : plan = .finish (stop.outcome .builtIn path) := by
        simp only [plan, ofArguments, hsettings]
      cases hplan.symm.trans h
    · have hplan : plan = ofSettings .builtIn limit s := ofArguments_of_ok hsettings
      rw [resume_of_write (hplan.symm.trans h)]
      exact ⟨rfl, fun reason => ⟨_, crash_ne_empty _ _, rfl⟩⟩

/-- A file stands where the path of the output needs a folder: the file stays as it was. -/
theorem run_failure_leaves_file :
    let tree : FileTree := .system [] [(["old.s"], "kept")]
    let run := runIn tree (ofArguments .builtIn nestingLimit ⟨"Linux", "x86_64"⟩ "calcc"
      ["-o", "old.s/new.s", "7"])
    ∃ o tree', run = .ok (o, tree') ∧ o.exit = 1 ∧ o.stdout = "" ∧ o.stderr ≠ "" ∧
      tree'.ownFiles = [(["old.s"], "kept")] := by
  intro tree run
  let s : Settings := ⟨"7", .text "x64-linux", some (.text "old.s/new.s"), none⟩
  obtain ⟨hends, hfail, -⟩ := run_failure_leaves nestingLimit ⟨"Linux", "x86_64"⟩ "calcc"
    ["-o", "old.s/new.s", "7"] tree
  have hsettings : Settings.ofArguments .builtIn ⟨"Linux", "x86_64"⟩ ["-o", "old.s/new.s", "7"]
      = .ok s := by rfl
  have hopen : tree.openFile "old.s/new.s" = .error .notADirectory := by rfl
  have hasm := Registry.compile_seven
  have hfailure {asm : String} :
      (tree.write "old.s/new.s" asm).failure = some (.opening .notADirectory) :=
    congrArg WriteResult.failure (FileTree.write_of_openFile hopen asm)
  have hfails : FailsWith nestingLimit ⟨"Linux", "x86_64"⟩ ["-o", "old.s/new.s", "7"] tree 1 :=
    .stage hsettings (.unwritable rfl rfl rfl (by decide) hasm hfailure)
  obtain ⟨-, o, tree', hrun, hexit⟩ := hfail 1 hfails
  obtain ⟨-, hstderr, hleaves⟩ := (hends _ _ hrun).1 (by rw [hexit]; decide)
  rcases hleaves with ⟨hstdout, rfl⟩ | ⟨fileName, contents, resume, e, hcut, hfailure', -⟩
  · exact ⟨o, tree, hrun, hexit, hstdout, hstderr, by rfl⟩
  · rw [ofArguments_of_ok hsettings, ofSettings_of_file (s := s) rfl rfl rfl (by decide) hasm]
      at hcut
    obtain ⟨rfl, rfl, -⟩ := Plan.write.inj hcut
    cases hfailure.symm.trans hfailure'

/-- **Two runs that leave something behind.**  The disk is full after five characters of the
program, which have taken the place of a file; and the program is sent to the standard error. -/
theorem run_failure_cuts :
    let asm := "\t.text\n\t.globl\tmain\nmain:\n\tpushq\t$7\n\tpopq\t%rax\n\tretq\n"
    let tree : FileTree := { FileTree.system [] [(["old.s"], "kept")] with
      refusals := [(["tmp", "", "old.s"], .writing 5 .noSpace)] }
    (∃ o tree', runIn tree (ofArguments .builtIn nestingLimit ⟨"Linux", "x86_64"⟩ "calcc"
          ["-o", "old.s", "7"]) = .ok (o, tree') ∧
        o.exit = 1 ∧ tree.ownFiles = [(["old.s"], "kept")] ∧
        tree'.ownFiles = [(["old.s"], "\t.tex")]) ∧
      runIn (.system [] []) (ofArguments .builtIn nestingLimit ⟨"Linux", "x86_64"⟩ "calcc"
          ["-o", "/dev/stderr", "7"]) = .ok (⟨0, "", asm⟩, .system [] []) := by
  intro asm tree
  have hcut : Settings.ofArguments .builtIn ⟨"Linux", "x86_64"⟩ ["-o", "old.s", "7"]
      = .ok ⟨"7", .text "x64-linux", some (.text "old.s"), none⟩ := by rfl
  have hsent : Settings.ofArguments .builtIn ⟨"Linux", "x86_64"⟩ ["-o", "/dev/stderr", "7"]
      = .ok ⟨"7", .text "x64-linux", some (.text "/dev/stderr"), none⟩ := by rfl
  have hcutRun := runIn_seven hcut (by decide) "calcc" tree
  have hsentRun := runIn_seven hsent (by decide) "calcc" (.system [] [])
  exact ⟨⟨_, _, hcutRun, by rfl, by rfl, by rfl⟩, hsentRun.trans (by rfl)⟩

end Plan

end ArithAsm
