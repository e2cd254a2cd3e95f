import ArithAsm.Text.Quoted

/-!
# File trees

A file tree holds folders, files and devices, each under the path of names that leads to it from the
root, and one of its folders is the working folder.  A text in which slashes part the names is
looked up from the working folder, or from the root if it starts with a slash; `.` is the folder one
is in, `..` the one above it, and above the root is the root itself.

A file is written in two steps.  It is opened first, which a name on the way or the system may stand
in the way of; then nothing is changed.  Once it is open its old contents are gone, and it holds as
much of the new ones as the system has taken, which need not be all of them (`WriteResult`).  The
tree lists the paths at which the system stands in the way (`Refusal`), whatever its reason is.

The model assumes that every name leads to one entry, as it does where there are no links, that
nobody else changes the tree, and that the standard streams are open and are no files of the tree.
It does not assume that a file which was opened can be written.
-/

namespace ArithAsm

/-- Why a file cannot be written, by the number of the error in the operating system and its
wording. -/
structure WriteError where
  number : Nat
  text : String
  deriving DecidableEq, Repr

namespace WriteError

/-- There is nothing of a name on the way. -/
def notFound : WriteError :=
  ⟨2, "No such file or directory"⟩

/-- A file is on the way. -/
def notADirectory : WriteError :=
  ⟨20, "Not a directory"⟩

/-- The file to be written is a directory. -/
def isADirectory : WriteError :=
  ⟨21, "Is a directory"⟩

/-- No more can be held. -/
def noSpace : WriteError :=
  ⟨28, "No space left on device"⟩

def nameTooLong : WriteError :=
  ⟨36, "File name too long"⟩

end WriteError

/-- A write that failed, with the step in which it did. -/
inductive WriteFailure where
  | opening (e : WriteError)
  | writing (e : WriteError)
  deriving DecidableEq, Repr

namespace WriteFailure

/-- The error. -/
def error : WriteFailure → WriteError
  | opening e => e
  | writing e => e

/-- What is shown of the file, which only an error of opening it names. -/
def subject (fileName : String) : WriteFailure → String
  | opening _ => ": " ++ Text.quoted fileName
  | writing _ => ""

/-- The wording of the failure for the file of the given name. -/
def describe (f : WriteFailure) (fileName : String) : String :=
  "[Errno " ++ toString f.error.number ++ "] " ++ f.error.text ++ f.subject fileName

end WriteFailure

/-- A path, as the names that lead from the root to an entry. -/
abbrev Path := List String

/-- What is written to and is no file. -/
inductive Device where
  /-- Keeps nothing. -/
  | sink
  /-- The standard output. -/
  | stdout
  /-- The standard error. -/
  | stderr
  deriving DecidableEq, Repr

/-- How the system stands in the way of a write although the name leads to a file. -/
inductive Refusal where
  /-- The file is not opened. -/
  | opening (e : WriteError)
  /-- The file is opened, but takes no more than so many characters, or cannot be closed. -/
  | writing (room : Nat) (e : WriteError)
  deriving DecidableEq, Repr

/-- The folders, files and devices of a system, and what the system refuses.  A folder that
something is in need not be listed, and neither need the working folder. -/
structure FileTree where
  workingFolder : Path
  folders : List Path
  files : List (Path × String)
  devices : List (Path × Device)
  refusals : List (Path × Refusal)
  deriving DecidableEq, Repr

/-- What a write has left behind: the files, what has come out of the standard streams, and the
failure if there was one. -/
structure WriteResult where
  tree : FileTree
  stdout : String
  stderr : String
  failure : Option WriteFailure
  deriving DecidableEq, Repr

namespace FileTree

/-! ### What is in a tree -/

/-- The contents of a file. -/
def file? (tree : FileTree) (path : Path) : Option String :=
  (tree.files.find? (·.1 = path)).map (·.2)

/-- The device at a path. -/
def device? (tree : FileTree) (path : Path) : Option Device :=
  (tree.devices.find? (·.1 = path)).map (·.2)

/-- What the system refuses at a path. -/
def refusal? (tree : FileTree) (path : Path) : Option Refusal :=
  (tree.refusals.find? (·.1 = path)).map (·.2)

/-- There is a folder at the path: it is listed, or something is in it. -/
def isFolder (tree : FileTree) (path : Path) : Bool :=
  path.isEmpty || (tree.workingFolder :: tree.folders).any (path.isPrefixOf ·)
    || (tree.files.map (·.1) ++ tree.devices.map (·.1)).any fun entry =>
      path.isPrefixOf entry && path ≠ entry

/-- The files in the working folder and below it, under their paths from there. -/
def ownFiles (tree : FileTree) : List (Path × String) :=
  tree.files.filterMap fun file =>
    if tree.workingFolder.isPrefixOf file.1 then
      some (file.1.drop tree.workingFolder.length, file.2)
    else none

/-! ### Look-up -/

/-- The longest name of an entry, in bytes. -/
def maxName : Nat :=
  255

/-- The longest text that is looked up, in bytes. -/
def maxPath : Nat :=
  4095

/-- The entry of a name in a folder, which a look-up may not be too long for. -/
def child (folder : Path) (name : String) : Except WriteError Path :=
  if name.utf8ByteSize > maxName then .error .nameTooLong else .ok (folder ++ [name])

/-- The folder that one name on the way leads to. -/
def enter (tree : FileTree) (folder : Path) (name : String) : Except WriteError Path :=
  if name = "." then .ok folder
  else if name = ".." then .ok folder.dropLast
  else do
    let path ← child folder name
    if tree.isFolder path then return path
    else if (tree.file? path).isSome || (tree.device? path).isSome then throw .notADirectory
    else throw .notFound

/-- The path of the file that the last name stands for. -/
def target (tree : FileTree) (folder : Path) (name : String) : Except WriteError Path :=
  if name = "." ∨ name = ".." then .error .isADirectory
  else do
    let path ← child folder name
    if tree.isFolder path then throw .isADirectory
    return path

/-- The names in a text, between its slashes. -/
def names (fileName : String) : List String :=
  ((fileName.toList.splitOn '/').filter (· ≠ [])).map String.ofList

/-- The folder that a text is looked up from. -/
def start (tree : FileTree) (fileName : String) : Path :=
  if fileName.toList.head? = some '/' then [] else tree.workingFolder

/-- The path of the file that a text names, to be opened for writing.  A slash at the end asks for a
directory. -/
def resolve (tree : FileTree) (fileName : String) : Except WriteError Path :=
  if fileName.isEmpty then .error .notFound
  else if fileName.utf8ByteSize > maxPath then .error .nameTooLong
  else do
    let folder ← (names fileName).dropLast.foldlM tree.enter (tree.start fileName)
    match (names fileName).getLast? with
    | none => throw .isADirectory
    | some name =>
      if fileName.toList.getLast? = some '/' then throw .isADirectory
      else tree.target folder name

/-! ### Writing -/

/-- Puts contents in the place of the file at a path, or at the end. -/
def putFile (path : Path) (contents : String) : List (Path × String) → List (Path × String)
  | [] => [(path, contents)]
  | file :: rest =>
    if file.1 = path then (path, contents) :: rest else file :: putFile path contents rest

/-- The tree with the given contents in a file, new or not. -/
def put (tree : FileTree) (path : Path) (contents : String) : FileTree :=
  { tree with files := putFile path contents tree.files }

theorem find?_putFile (path other : Path) (contents : String) (files : List (Path × String)) :
    (putFile path contents files).find? (·.1 = other)
      = if path = other then some (path, contents) else files.find? (·.1 = other) := by
  induction files with
  | nil => by_cases h : path = other <;> simp [putFile, h]
  | cons file rest ih =>
    by_cases hf : file.1 = path
    · by_cases h : path = other <;> simp [putFile, hf, h]
    · rw [putFile, if_neg hf]
      by_cases h : file.1 = other
      · have hp : path ≠ other := fun hp => hf (h.trans hp.symm)
        simp [h, hp]
      · simp only [List.find?_cons, h, decide_false, ih]

/-- A file holds what was put into it last, and no other file is changed. -/
theorem file?_put (tree : FileTree) (path other : Path) (contents : String) :
    (tree.put path contents).file? other =
      if path = other then some contents else tree.file? other := by
  simp only [file?, put, find?_putFile]
  by_cases h : path = other <;> simp [h]

/-- Opens the file that a text names for writing. -/
def openFile (tree : FileTree) (fileName : String) : Except WriteError Path := do
  let path ← tree.resolve fileName
  match tree.refusal? path with
  | some (.opening e) => throw e
  | _ => return path

/-- What is left behind when a text has got to an open file. -/
def deliver (tree : FileTree) (path : Path) (text : String) (failure : Option WriteFailure) :
    WriteResult :=
  match tree.device? path with
  | none => ⟨tree.put path text, "", "", failure⟩
  | some .sink => ⟨tree, "", "", failure⟩
  | some .stdout => ⟨tree, text, "", failure⟩
  | some .stderr => ⟨tree, "", text, failure⟩

/-- **Writes a file.**  If it cannot be opened nothing is changed, and if it cannot be written to
its end a front of the contents has got there. -/
def write (tree : FileTree) (fileName contents : String) : WriteResult :=
  match tree.openFile fileName with
  | .error e => ⟨tree, "", "", some (.opening e)⟩
  | .ok path =>
    match tree.refusal? path with
    | some (.writing room e) =>
      tree.deliver path (String.ofList (contents.toList.take room)) (some (.writing e))
    | _ => tree.deliver path contents none

/-! ### A system -/

/-- The folders at the root of a system. -/
def rootFolders : List String :=
  ["bin", "boot", "dev", "etc", "home", "lib", "media", "mnt", "opt", "proc", "root", "run", "sbin",
    "srv", "sys", "tmp", "usr", "var"]

/-- The devices of a system that are written to. -/
def systemDevices : List (Path × Device) :=
  [(["dev", "null"], .sink), (["dev", "zero"], .sink), (["dev", "full"], .sink),
    (["dev", "stdout"], .stdout), (["dev", "stderr"], .stderr)]

/-- What a system refuses by itself: a device that takes nothing. -/
def systemRefusals : List (Path × Refusal) :=
  [(["dev", "full"], .writing 0 .noSpace)]

/-- The working folder of a system, among the temporary ones.  No look-up has the empty name, so the
folder is not found under its own name. -/
def scratchFolder : Path :=
  ["tmp", ""]

/-- A system with the given folders and files in its working folder. -/
def system (folders : List Path) (files : List (Path × String)) : FileTree where
  workingFolder := scratchFolder
  folders := rootFolders.map ([·]) ++ folders.map (scratchFolder ++ ·)
  files := files.map fun file => (scratchFolder ++ file.1, file.2)
  devices := systemDevices
  refusals := systemRefusals

end FileTree

end ArithAsm
