import VideoScript.Json.Path
import VideoScript.Text.Blank

/-!
# Documents

A document is a JSON object that describes a video. In the template shape the timeline stands in
the object under `template`, and a merge array gives values to its placeholders; in the legacy shape
the timeline stands at the root and there is nothing to merge. `Document` gives the parts of both
shapes under one set of names.
-/

set_option autoImplicit false

namespace VideoScript

open Json

/-- The two layouts of a document. -/
inductive Shape where
  | template
  | legacy
  deriving DecidableEq, Repr

/-- A document, as the members of its root object. -/
structure Document where
  root : Members

/-- A part of a document with its path. -/
structure Located (α : Type) where
  value : α
  path : Path

/-- An entry of the merge array that is complete: the name of a placeholder and its value. -/
structure Binding where
  find : String
  replace : String
  deriving DecidableEq, Repr

namespace Document

/-- The document whose root a value is, for an object. -/
def ofJson? : Json → Option Document
  | .object members => some ⟨members⟩
  | _ => none

/-- The document as a value. -/
def toJson (doc : Document) : Json := .object doc.root

/-- A document has the template shape when it has the key `template`, whatever stands there. -/
def shape (doc : Document) : Shape := if doc.root.has "template" then .template else .legacy

/-- The members of the template, when it is an object. -/
def template? (doc : Document) : Option Members := (doc.root.get? "template").bind members?

/-- The path at which the shape of the document has its timeline. -/
def timelinePath (doc : Document) : Path :=
  match doc.shape with
  | .template => (Path.root.key "template").key "timeline"
  | .legacy => Path.root.key "timeline"

/-- The timeline. -/
def timeline? (doc : Document) : Option Json :=
  match doc.shape with
  | .template => doc.template?.bind (·.get? "timeline")
  | .legacy => doc.root.get? "timeline"

/-- A part that stands at the root or, when the root lacks it, in the template. -/
def rootOrTemplate? (doc : Document) (name : String) : Option (Located Json) :=
  match doc.root.get? name with
  | some value => some ⟨value, Path.root.key name⟩
  | none => do
    let value ← (← doc.template?).get? name
    return ⟨value, (Path.root.key "template").key name⟩

/-- The output settings. -/
def output? (doc : Document) : Option (Located Json) := doc.rootOrTemplate? "output"

/-- The merge array. -/
def merge? (doc : Document) : Option (Located Json) := doc.rootOrTemplate? "merge"

/-- The entries of the merge array; none when it is missing or no array. -/
def mergeEntries (doc : Document) : List Json :=
  ((doc.merge?.map (·.value)).bind items?).getD []

/-- The binding that a merge entry gives: both of its texts, the name not empty. -/
def binding? (entry : Json) : Option Binding := do
  let find ← (← entry.get? "find").text?
  let replace ← (← entry.get? "replace").text?
  if find.isEmpty then none else some ⟨find, replace⟩

/-- Adds a binding after the others, unless one has its name already. -/
def addBinding (bindings : List Binding) (b : Binding) : List Binding :=
  if bindings.any (·.find == b.find) then bindings else bindings ++ [b]

/-- The bindings of the merge array; of several with one name the first counts. -/
def bindings (doc : Document) : List Binding :=
  (doc.mergeEntries.filterMap binding?).foldl addBinding []

/-- The directory of the media files that the document names. A blank one does not count. -/
def resourcesDir? (doc : Document) : Option String := do
  let dir ← (← (doc.root.get? "resourcesDir").or (doc.root.get? "resources_dir")).text?
  if Text.isBlankText dir then none else some dir

/-- The name of the video. A blank one does not count. -/
def name? (doc : Document) : Option String := do
  let name ← (← doc.root.get? "name").text?
  if Text.isBlankText name then none else some name

/-- The clips of a track that are objects, with their paths; `path` is the path of the track. -/
def clipsOfTrack (path : Path) (track : Json) : List (Located Members) :=
  match (track.get? "clips").bind items? with
  | none => []
  | some clips =>
    clips.zipIdx.filterMap fun (clip, i) =>
      clip.members?.map fun members => ⟨members, (path.key "clips").index i⟩

/-- The clips that are objects, in the tracks that have an array of clips, with their paths. -/
def clips (doc : Document) : List (Located Members) :=
  match ((doc.timeline?.bind (·.get? "tracks")).bind items?) with
  | none => []
  | some tracks =>
    tracks.zipIdx.flatMap fun (track, i) =>
      clipsOfTrack ((doc.timelinePath.key "tracks").index i) track

end Document

end VideoScript
