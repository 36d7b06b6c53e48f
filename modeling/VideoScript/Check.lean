import VideoScript.Disk.Tree
import VideoScript.Media.Lookup
import VideoScript.Report
import VideoScript.Rules.Coverage
import VideoScript.Rules.Layout
import VideoScript.Rules.Markup
import VideoScript.Rules.Values

/-!
# Checking a script

A script is checked as a file, as a text or as a value. Its findings come in a fixed order: layout,
braces, merge array, values, media files. Only a script that cannot be read and a disk that fails
are errors; everything else is a finding.
-/

set_option autoImplicit false

namespace VideoScript

open Json Disk

/-- Why a script cannot be checked. -/
inductive CheckFailure where
  | unreadable (path : String) (failure : Failure)
  | probing (e : Media.ProbeError)
  deriving DecidableEq, Repr

/-- The wording of an error. -/
def CheckFailure.message : CheckFailure → String
  | .unreadable path failure => "cannot read " ++ path ++ ": " ++ failure.message
  | .probing e => "I/O error probing " ++ e.path ++ ": " ++ e.failure.message

/-- The surroundings of a check: a disk, its working directory, and the order in which look-ups
finish. -/
structure Surroundings where
  disk : Disk
  workingDirectory : String
  schedule : Media.Schedule

/-- The surroundings that a tree of files gives. -/
def Surroundings.ofTree (tree : FileTree) : Surroundings :=
  ⟨tree.disk, tree.workingDirectory, .inOrder⟩

/-- The findings of the rules on a document. -/
def ruleFindings (doc : Document) : List Finding :=
  let scan := Placeholder.scan doc
  Rules.layout doc ++ Rules.markup scan ++ Rules.coverage doc scan ++ Rules.values doc

/-- The shelf of the media files of a document. -/
def shelfOf (settings : CheckSettings) (baseDir : String) (doc : Document) : Media.Shelf :=
  .make settings baseDir doc.resourcesDir?

/-- The report on a document whose media paths are seen from a directory. -/
def checkDocument (here : Surroundings) (settings : CheckSettings) (doc : Document)
    (baseDir : String) : Except CheckFailure Report := do
  let refs := Media.references doc
  let files ← (Media.fileFindings here.schedule here.disk settings (shelfOf settings baseDir doc)
    refs).mapError .probing
  return ⟨ruleFindings doc ++ files, settings.strict⟩

/-- The report on a value whose media paths are seen from a directory. -/
def checkJson (here : Surroundings) (settings : CheckSettings) (value : Json) (baseDir : String) :
    Except CheckFailure Report :=
  if settings.skipChecks then
    .ok ⟨[.info .malformed "$" "validation skipped"], settings.strict⟩
  else match Document.ofJson? value with
    | none =>
      .ok ⟨[.error .structural "$" "document root must be a JSON object"], settings.strict⟩
    | some doc => checkDocument here settings doc baseDir

/-- The finding for a text that is not JSON. -/
def parseFinding (e : ReadError) : Finding :=
  .error .malformed "$" s!"invalid JSON at line {e.line}, column {e.column}: {e.message}"

/-- The report on a text whose media paths are seen from a directory. -/
def checkText (here : Surroundings) (settings : CheckSettings) (text baseDir : String) :
    Except CheckFailure Report :=
  match parse text with
  | .ok value => checkJson here settings value baseDir
  | .error e => .ok ⟨[parseFinding e], settings.strict⟩

/-- The directory from which the media paths of a script are seen. -/
def scriptDirectory (workingDirectory path : String) : String :=
  (parent? (absolute workingDirectory path)).getD "."

/-- The report on a file. -/
def checkFile (here : Surroundings) (settings : CheckSettings) (path : String) :
    Except CheckFailure Report := do
  let text ← (here.disk.readText path).mapError (.unreadable path)
  checkText here settings text (scriptDirectory here.workingDirectory path)

end VideoScript
