import VideoScript.Text.Utf8

/-!
# What a disk answers

A `Disk` is a snapshot: it answers, for each path, what stands there, whether it can be opened, and
what it holds. Any answers are possible; `FileTree` in `VideoScript.Disk.Tree` gives those of a tree
of files and directories.
-/

set_option autoImplicit false

namespace VideoScript

/-- Why a disk refuses a path. -/
inductive Disk.Failure where
  | notFound
  | denied
  | notDirectory
  | isDirectory
  | exists
  | nameTooLong
  | nulInName
  | notText
  | noWholeTree
  | device (message : String)
  deriving DecidableEq, Repr

/-- The wording of a refusal. -/
def Disk.Failure.message : Disk.Failure → String
  | .notFound => "No such file or directory (os error 2)"
  | .denied => "Permission denied (os error 13)"
  | .notDirectory => "Not a directory (os error 20)"
  | .isDirectory => "Is a directory (os error 21)"
  | .exists => "File exists (os error 17)"
  | .nameTooLong => "File name too long (os error 36)"
  | .nulInName => "file name contained an unexpected NUL byte"
  | .notText => "stream did not contain valid UTF-8"
  | .noWholeTree => "failed to create whole tree"
  | .device message => message

/-- What stands at a path. -/
inductive Disk.Kind where
  | file
  | directory
  | other
  deriving DecidableEq, Repr

/-- A snapshot of a disk. -/
structure Disk where
  /-- What stands at a path. -/
  kind : String → Except Disk.Failure Disk.Kind
  /-- Whether what stands at a path can be opened. -/
  opens : String → Except Disk.Failure Unit
  /-- What the file at a path holds. -/
  read : String → Except Disk.Failure ByteArray

namespace Disk

/-- Whether a file stands at a path. -/
def hasFile (disk : Disk) (path : String) : Bool :=
  match disk.kind path with
  | .ok .file => true
  | _ => false

/-- Whether a directory stands at a path. -/
def hasDirectory (disk : Disk) (path : String) : Bool :=
  match disk.kind path with
  | .ok .directory => true
  | _ => false

/-- The text that the file at a path holds. -/
def readText (disk : Disk) (path : String) : Except Failure String := do
  match Text.decode? (← disk.read path) with
  | some s => return s
  | none => throw .notText

end Disk

end VideoScript
