import VideoScript.Document
import VideoScript.Media.Reference

/-!
# The edit that is rendered

An edit is the timeline and the output settings of a document, with uploaded files in place of local
ones. In a template a source that is one whole placeholder stays, and the merge array gives it the
address of the file; every other source is replaced where it stands. The merge array keeps its
entries and their order: entries for a placeholder with an uploaded file get its address, and a
placeholder without an entry gets one at the end.
-/

set_option autoImplicit false

namespace VideoScript.Assembly

open Json Text Media

/-- A media file that has been uploaded. -/
structure Upload where
  /-- The path as the document gives it. -/
  raw : String
  path : String
  url : String
  deriving DecidableEq, Repr

/-- The address of the file that a path of the document stands for. -/
def urlOf? (uploads : List Upload) (raw : String) : Option String :=
  (uploads.find? fun u => u.raw = raw).map (·.url)

/-- The placeholder through which a reference gets its file; without one the source itself is
replaced. -/
def boundToken? (shape : Shape) (r : Reference) : Option String :=
  match shape with
  | .template => r.token
  | .legacy => none

/-! ## Sources -/

/-- The value with the source of a reference replaced by the address of its file. -/
def placeUrl (shape : Shape) (uploads : List Upload) (root : Json) (r : Reference) : Json :=
  match boundToken? shape r, urlOf? uploads r.raw with
  | none, some url => (root.writeAt? r.location.pointer (.string url)).getD root
  | _, _ => root

/-- The document with the addresses of files in place of all sources that are not placeholders. -/
def placeUrls (doc : Document) (refs : List Reference) (uploads : List Upload) : Document :=
  ⟨(refs.foldl (placeUrl doc.shape uploads) doc.toJson).members?.getD doc.root⟩

/-! ## Placeholders -/

/-- A placeholder with the address of its file. -/
structure BoundToken where
  token : String
  url : String
  deriving DecidableEq, Repr

/-- Adds the placeholder of a reference, unless it is there already. -/
def addToken (shape : Shape) (uploads : List Upload) (bound : List BoundToken) (r : Reference) :
    List BoundToken :=
  match boundToken? shape r, urlOf? uploads r.raw with
  | some token, some url =>
    if bound.any (·.token == token) then bound else bound ++ [⟨token, url⟩]
  | _, _ => bound

/-- The placeholders with uploaded files, in the order of their first references. -/
def boundTokens (doc : Document) (refs : List Reference) (uploads : List Upload) :
    List BoundToken :=
  refs.foldl (addToken doc.shape uploads) []

/-- Whether a merge entry is for a placeholder. -/
def isEntryFor (token : String) (entry : Json) : Bool :=
  match (entry.get? "find").bind text? with
  | some find => trim find = token
  | none => false

/-- A merge entry with another value. -/
def withReplace (url : String) : Json → Json
  | .object members => .object (Members.put members "replace" (.string url))
  | entry => entry

/-- The merge entries with the address for one placeholder. -/
def bindToken (entries : List Json) (b : BoundToken) : List Json :=
  if entries.any (isEntryFor b.token) then
    entries.map fun entry => if isEntryFor b.token entry then withReplace b.url entry else entry
  else entries ++ [.object [("find", .string b.token), ("replace", .string b.url)]]

/-- The merge array of the edit. -/
def mergeOf (doc : Document) (bound : List BoundToken) : Json :=
  .array (bound.foldl bindToken doc.mergeEntries)

/-! ## The edit -/

/-- What a document lacks that an edit needs. -/
inductive MissingPart where
  | timeline (shape : Shape)
  | output
  deriving DecidableEq, Repr

/-- The wording of what is lacking. -/
def MissingPart.message : MissingPart → String
  | .timeline .template => "missing template.timeline"
  | .timeline .legacy => "missing timeline"
  | .output => "missing output"

/-- The edit of a document whose files have been uploaded. -/
def edit (doc : Document) (refs : List Reference) (uploads : List Upload) :
    Except MissingPart Json := do
  let placed := placeUrls doc refs uploads
  let some timeline := placed.timeline? | throw (.timeline doc.shape)
  let some output := placed.output? | throw .output
  let merge : Members := match doc.shape with
    | .template => [("merge", mergeOf doc (boundTokens doc refs uploads))]
    | .legacy => []
  return .object ([("timeline", timeline), ("output", output.value)] ++ merge)

end VideoScript.Assembly
