import VideoScript.Disk.Basic
import VideoScript.Disk.Path
import VideoScript.Document

/-!
# Where a video is saved

A video is named for the name of its document or, without one, for the script; its extension is the
format of the output. It goes to the place that was asked for: into a directory, or to a file. When
nothing was asked for it goes into the directory `output` beside the script.
-/

set_option autoImplicit false

namespace VideoScript.Assembly

open Json Disk

/-- A character of a name as it stands in the name of a file. -/
def fileNameChar (c : Char) : Char := if c = '/' || c = '\\' || c = ':' then '_' else c

/-- The name of the video, without its extension. -/
def videoStem (doc : Document) (script : String) : String :=
  let name := (doc.name?.or (fileStem? script)).getD "output"
  .ofList (name.toList.map fileNameChar)

/-- The extension of the video. -/
def videoFormat (doc : Document) : String :=
  (((doc.output?.map (·.value)).bind (·.get? "format")).bind text?).getD "mp4"

/-- The name of the file with the video. -/
def videoFile (doc : Document) (script : String) : String :=
  videoStem doc script ++ "." ++ videoFormat doc

/-- The path of the file with the video. -/
def destination (disk : Disk) (doc : Document) (script baseDir : String)
    (requested : Option String) : String :=
  match requested with
  | some path => if disk.hasDirectory path then join path (videoFile doc script) else path
  | none => join (join baseDir "output") (videoFile doc script)

end VideoScript.Assembly
