import VideoScript.Disk.Tree
import VideoScript.Json.Printer
import VideoScript.ShotList.Conversion

/-!
# Shot lists as files

A shot list is a file with the extension `md`, in either case. Its document is written as indented
JSON with a newline after it, to a given place or beside the shot list with the extension `json`.
-/

set_option autoImplicit false

namespace VideoScript.ShotList

open Text Disk

/-- Why the conversion of a file fails. -/
inductive FileError where
  | notMarkdown (path : String)
  | unreadable (path : String) (failure : Failure)
  | refused (e : HeaderError)
  | unwritable (path : String) (failure : Failure)
  deriving DecidableEq, Repr

/-- The wording of an error. -/
def FileError.message : FileError → String
  | .notMarkdown path => "Only .md files supported, got " ++ path
  | .unreadable path failure => "cannot read " ++ path ++ ": " ++ failure.message
  | .refused e => e.message
  | .unwritable path failure => "cannot write " ++ path ++ ": " ++ failure.message

/-- The file that a conversion makes. -/
structure Converted where
  path : String
  conversion : Conversion

/-- Whether a path has the extension of a shot list. -/
def isShotList (path : String) : Bool :=
  match extension? path with
  | some e => sameIgnoringCase e "md"
  | none => false

/-- The text of the file that a conversion makes. -/
def Conversion.fileText (c : Conversion) : String := c.document.pretty ++ "\n"

/-- Converts the shot list at `input` to a document at `output` or, without one, beside it. -/
def convertAt (tree : FileTree) (input : String) (output : Option String) (mode : Mode) :
    Except FileError (Converted × FileTree) := do
  if !isShotList input then throw (.notMarkdown input)
  let text ← (tree.disk.readText input).mapError (.unreadable input)
  let conversion ← (convert text mode).mapError .refused
  let path := output.getD (withExtension input "json")
  let tree ← (tree.storeFile path conversion.fileText.toUTF8).mapError (.unwritable path)
  return (⟨path, conversion⟩, tree)

end VideoScript.ShotList
