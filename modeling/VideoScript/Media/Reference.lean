import VideoScript.Media.Address
import VideoScript.Placeholder.Scan

/-!
# References to media files

A string under the key `src` in the timeline refers to a media file, unless it is blank or a URL.
When it is one whole placeholder, the file is what the merge array binds the placeholder to, and
the name of the placeholder itself when that is blank or missing. Any other string with two opening
braces is put together only when the video is rendered, and refers to nothing yet.
-/

set_option autoImplicit false

namespace VideoScript.Media

open Json Text Placeholder

/-- A reference from a document to a media file. -/
structure Reference where
  /-- The path as the document gives it. -/
  raw : String
  /-- Where the document gives it. -/
  location : Path
  /-- The placeholder that stands there, if one does. -/
  token : Option String
  deriving DecidableEq, Repr

/-- The value bound to a placeholder: that of the first binding with its name, unless it is
blank. -/
def boundValue? (bindings : List Binding) (token : List Char) : Option (List Char) :=
  match bindings.find? fun b => trimChars b.find.toList == token with
  | none => none
  | some b =>
    let value := trimChars b.replace.toList
    if value.isEmpty then none else some value

/-- Whether two opening braces stand side by side in a text. -/
def hasOpening : List Char → Bool
  | '{' :: '{' :: _ => true
  | _ :: rest => hasOpening rest
  | [] => false

/-- The source that a string gives, and the placeholder that it consists of. -/
def source? (bindings : List Binding) (s : List Char) : Option (List Char × Option (List Char)) :=
  match soleToken? s with
  | some token =>
    (diskPath? ((boundValue? bindings token).getD token)).map fun path => (path, some token)
  | none =>
    if hasOpening s then none
    else (diskPath? s).map fun path => (path, none)

/-- The reference that a string of the timeline makes. -/
def reference? (bindings : List Binding) (leaf : Leaf) : Option Reference :=
  if leaf.path.finalKey? = some "src" then
    let s := trimChars leaf.text.toList
    if s.isEmpty then none
    else (source? bindings s).map fun (raw, token) =>
      ⟨.ofList raw, leaf.path, token.map .ofList⟩
  else none

/-- The references of a document to media files, in the order of the document. -/
def references (doc : Document) : List Reference :=
  match doc.timeline? with
  | none => []
  | some timeline => (leavesAt doc.timelinePath timeline).filterMap (reference? doc.bindings)

/-- Adds the location of a reference to the group of its path; a new path comes last. -/
def addLocation (groups : List (String × List Path)) (r : Reference) : List (String × List Path) :=
  Scan.addPath groups r.raw r.location

/-- The distinct paths in the order of their first references, each with all its locations. -/
def grouped (refs : List Reference) : List (String × List Path) := refs.foldl addLocation []

end VideoScript.Media
