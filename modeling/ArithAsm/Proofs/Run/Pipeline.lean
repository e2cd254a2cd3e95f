import ArithAsm.Proofs.Run.Faults

/-!
# A run is the composition of its stages

For settings that were accepted, a run ends well exactly if it meets them, and `Settings.Meets`
speaks of the stages alone.  Otherwise it ends with exit status 1, unless a failure escapes, and it
prints nothing and leaves all files as they are, unless it was cut short in writing its output
(`run_ok_iff_meets`).  A separator in the place of a name of a file lets a failure escape that is
none of the stages' own (`run_of_separator`).
-/

namespace ArithAsm.Plan

open CommandLine

variable {host : Host} {path : String} {args : List String} {s : Settings} {tree : FileTree}

/-- **A run ends well exactly if its settings are met.**  In every other run the exit status is 1
and nothing has been printed or written but a front of the program in the place it was meant for, or
a failure escapes. -/
theorem run_ok_iff_meets (limit : Nat) (h : Settings.ofArguments .builtIn host args = .ok s) :
    let plan := ofArguments .builtIn limit host path args
    (∀ o tree', runIn tree plan = .ok (o, tree') ∧ o.exit = 0 ↔
      ∃ stdout stderr, o = ⟨0, stdout, stderr⟩ ∧
        s.Meets .builtIn limit tree stdout stderr tree') ∧
    (∀ o tree', runIn tree plan = .ok (o, tree') → o.exit ≠ 0 →
      o.exit = 1 ∧ (o.stdout = "" ∧ tree' = tree ∨ CutShort tree plan o tree')) ∧
    ∀ f, runIn tree plan = .error f ↔ s.Escapes limit f := by
  intro plan
  have hplan : plan = ofSettings .builtIn limit s := ofArguments_of_ok h
  have hregistered := isRegistered_of_builtIn h
  rw [hplan]
  refine ⟨fun o tree' => ⟨?_, ?_⟩, fun o tree' hok hexit => ?_, runIn_eq_error_iff hregistered⟩
  · rintro ⟨hok, hexit⟩
    rcases outcome_cases hregistered hok with hmeets | ⟨-, hreports⟩
    · exact hmeets
    · cases hexit.symm.trans hreports.exit
  · rintro ⟨stdout, stderr, rfl, hmeets⟩
    exact ⟨runIn_of_meets hmeets, rfl⟩
  · rcases outcome_cases hregistered hok with ⟨stdout, stderr, rfl, -⟩ | ⟨-, hreports⟩
    · exact absurd rfl hexit
    · exact ⟨hreports.exit, hreports.leaves⟩

/-- A program goes to a file, and the file holds it. -/
theorem run_ok_iff_meets_file :
    let asm := "\t.text\n\t.globl\tmain\nmain:\n\tpushq\t$7\n\tpopq\t%rax\n\tretq\n"
    ∃ tree', runIn (.system [] [])
        (ofArguments .builtIn nestingLimit ⟨"Linux", "x86_64"⟩ "calcc" ["-o", "7.s", "7"])
          = .ok (⟨0, "", ""⟩, tree') ∧ tree'.ownFiles = [(["7.s"], asm)] := by
  intro asm
  have hsettings : Settings.ofArguments .builtIn ⟨"Linux", "x86_64"⟩ ["-o", "7.s", "7"]
      = .ok ⟨"7", .text "x64-linux", some (.text "7.s"), none⟩ := by rfl
  have hasm : Registry.builtIn.compile nestingLimit "7" "x64-linux" = .ok asm :=
    Registry.compile_seven
  have hwrite : FileTree.write (.system [] []) "7.s" asm
      = ⟨FileTree.put (.system [] []) ["tmp", "", "7.s"] asm, "", "", none⟩ := by rfl
  have hwell := congrArg WriteResult.failure hwrite
  have hmeets := Settings.Meets.file (s := ⟨"7", .text "x64-linux", some (.text "7.s"), none⟩)
    rfl rfl rfl (by decide) hasm rfl hwell (FileTree.holds_of_write hwell)
  rw [hwrite] at hmeets
  exact ⟨_, (((run_ok_iff_meets nestingLimit hsettings).1 _ _).mpr ⟨"", "", rfl, hmeets⟩).1,
    by rfl⟩

/-- **A failure that is none of the stages' own:** there is a program, but the switch for the output
was given the two dashes of a separator. -/
theorem run_of_separator :
    let args := ["-o", "--", "1"]
    Settings.ofArguments .builtIn ⟨"Linux", "x86_64"⟩ args
      = .ok ⟨"1", .text "x64-linux", some .nothing, none⟩ ∧
    (∃ asm, Registry.builtIn.compile nestingLimit "1" "x64-linux" = .ok asm) ∧
    runIn (.system [] []) (ofArguments .builtIn nestingLimit ⟨"Linux", "x86_64"⟩ "calcc" args)
      = .error .outputMissing := by
  intro args
  have hsettings : Settings.ofArguments .builtIn ⟨"Linux", "x86_64"⟩ args
      = .ok ⟨"1", .text "x64-linux", some .nothing, none⟩ := by rfl
  have htree : readTree nestingLimit "1" = .ok (.number 1 (some 0)) :=
    readTree_of_toOption (by decide +kernel)
  have hregistered := isRegistered_of_builtIn hsettings
  obtain ⟨asm, hlower⟩ := Registry.exists_lower (hregistered _ rfl) htree
  refine ⟨hsettings, ⟨asm, Registry.compile_eq_ok_iff.mpr ⟨_, htree, hlower⟩⟩, ?_⟩
  rw [ofArguments_of_ok hsettings]
  exact runIn_of_escapes hregistered (.output rfl htree rfl rfl)

end ArithAsm.Plan
