import ArithAsm.FileTree
import ArithAsm.Proofs.Result

/-!
# What a write leaves behind

A write that cannot open its file changes nothing (`write_of_openFile`).  One that can brings a text
to the place that the name leads to, and to no other one (`Arrives`): all of the contents if it
succeeds (`holds_of_write`), and a front of them otherwise (`leavesFront_of_write`).
-/

namespace ArithAsm.FileTree

variable {tree : FileTree} {fileName contents text : String} {path : Path} {e : WriteError}

/-- **The text has arrived at the path:** in the place of the contents of the file, or where the
device takes it to.  Nothing has happened elsewhere. -/
structure Arrives (tree : FileTree) (path : Path) (text : String) (result : WriteResult) :
    Prop where
  file : tree.device? path = none → result.tree.file? path = some text
  others : ∀ other, other ≠ path → result.tree.file? other = tree.file? other
  device : tree.device? path ≠ none → result.tree = tree
  stdout : result.stdout = if tree.device? path = some .stdout then text else ""
  stderr : result.stderr = if tree.device? path = some .stderr then text else ""

/-- **The file of the name holds the contents afterwards,** or a device has taken them. -/
def Holds (tree : FileTree) (fileName contents : String) (result : WriteResult) : Prop :=
  ∃ path, tree.openFile fileName = .ok path ∧ tree.Arrives path contents result

/-- **A front of the contents is left:** the file of the name was opened, and no more than this has
got there. -/
def LeavesFront (tree : FileTree) (fileName contents : String) (result : WriteResult) : Prop :=
  ∃ path front, tree.openFile fileName = .ok path ∧ front <+: contents.toList ∧
    tree.Arrives path (String.ofList front) result

theorem arrives_deliver (tree : FileTree) (path : Path) (text : String)
    (failure : Option WriteFailure) : tree.Arrives path text (tree.deliver path text failure) := by
  unfold deliver
  rcases hdevice : tree.device? path with _ | _ | _ | _
  · refine ⟨fun _ => ?_, fun other hother => ?_, fun h => absurd hdevice h, ?_, ?_⟩
    · rw [file?_put, if_pos rfl]
    · rw [file?_put, if_neg hother.symm]
    · rw [hdevice, if_neg nofun]
    · rw [hdevice, if_neg nofun]
  all_goals
    refine ⟨fun h => ?_, fun _ _ => rfl, fun _ => rfl, ?_, ?_⟩
    · cases hdevice.symm.trans h
    · simp [hdevice]
    · simp [hdevice]

@[simp] theorem failure_deliver (tree : FileTree) (path : Path) (text : String)
    (failure : Option WriteFailure) : (tree.deliver path text failure).failure = failure := by
  unfold deliver
  split <;> rfl

/-- **A file that cannot be opened is left alone,** and so is everything else. -/
theorem write_of_openFile (h : tree.openFile fileName = .error e) (contents : String) :
    tree.write fileName contents = ⟨tree, "", "", some (.opening e)⟩ := by
  rw [write, h]

/-- **A file that was written holds its contents.** -/
theorem holds_of_write (h : (tree.write fileName contents).failure = none) :
    tree.Holds fileName contents (tree.write fileName contents) := by
  rcases hopen : tree.openFile fileName with e | path
  · rw [write_of_openFile hopen] at h
    cases h
  · refine ⟨path, hopen, ?_⟩
    simp only [write, hopen] at h ⊢
    split at h
    · cases (failure_deliver _ _ _ _).symm.trans h
    · exact arrives_deliver tree path contents none

/-- **A file that was opened and not written holds a front of its contents.** -/
theorem leavesFront_of_write (h : (tree.write fileName contents).failure = some (.writing e)) :
    tree.LeavesFront fileName contents (tree.write fileName contents) := by
  rcases hopen : tree.openFile fileName with e | path
  · rw [write_of_openFile hopen] at h
    cases h
  · simp only [write, hopen] at h ⊢
    split at h
    next room e' _ =>
      exact ⟨path, _, hopen, List.take_prefix room _, arrives_deliver tree path _ _⟩
    next => cases (failure_deliver _ _ _ _).symm.trans h

theorem openFile_of_write (h : (tree.write fileName contents).failure = some (.opening e)) :
    tree.openFile fileName = .error e := by
  rcases hopen : tree.openFile fileName with e' | path
  · rw [write_of_openFile hopen] at h
    cases h
    rfl
  · simp only [write, hopen] at h
    split at h
    · cases (failure_deliver _ _ _ _).symm.trans h
    · cases (failure_deliver _ _ _ _).symm.trans h

end ArithAsm.FileTree
