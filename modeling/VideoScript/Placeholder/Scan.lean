import VideoScript.Document
import VideoScript.Json.Leaves
import VideoScript.Placeholder

/-!
# Placeholders in a document

The scan of a document splits each of its strings into pieces and keeps the path with each piece.
The merge arrays are left out: what stands there names the placeholders and does not use them.
Style sheets are full of braces, so under the key `css` only empty placeholders count as problems.

`Scan.ofWalk` makes the same scan with one path that it steps down and up again as it goes.
-/

set_option autoImplicit false

namespace VideoScript.Placeholder

open Json

/-- A place where a placeholder stands. -/
structure Occurrence where
  token : String
  path : Path
  deriving DecidableEq, Repr

/-- A place where a brace belongs to no placeholder. -/
structure Issue where
  problem : Problem
  text : String
  path : Path
  deriving DecidableEq, Repr

/-- What a document has in braces, in the order of the document. -/
structure Scan where
  occurrences : List Occurrence
  issues : List Issue
  deriving DecidableEq, Repr

/-- The placeholders of a string. -/
def leafOccurrences (leaf : Leaf) : List Occurrence :=
  (pieces leaf.text.toList).filterMap fun
    | .token name => some ⟨.ofList name, leaf.path⟩
    | .problem _ _ => none

/-- Whether a problem counts under a key: a style sheet may have any but an empty placeholder. -/
def counts (finalKey : Option String) (kind : Problem) : Bool :=
  !(finalKey = some "css" && kind ≠ .empty)

/-- The problems of a string. -/
def leafIssues (leaf : Leaf) : List Issue :=
  (pieces leaf.text.toList).filterMap fun
    | .problem kind text =>
      if counts leaf.path.finalKey? kind then some ⟨kind, .ofList text, leaf.path⟩ else none
    | .token _ => none

/-- The strings of the members of the template, its merge array left out. -/
def templateLeaves (path : Path) (template : Members) : List Leaf :=
  memberLeaves path (template.filter fun (key, _) => key ≠ "merge")

/-- The strings of a document outside its merge arrays. -/
def scannedLeaves (doc : Document) : List Leaf :=
  (doc.root.filter fun (key, _) => key ≠ "merge").flatMap fun (key, value) =>
    match value with
    | .object template =>
      if key = "template" then templateLeaves (Path.root.key key) template
      else leavesAt (Path.root.key key) value
    | _ => leavesAt (Path.root.key key) value

/-- The scan of a document. -/
def scan (doc : Document) : Scan :=
  ⟨(scannedLeaves doc).flatMap leafOccurrences, (scannedLeaves doc).flatMap leafIssues⟩

namespace Scan

/-- Adds a path to the group of a token; a new token comes last. -/
def addPath (groups : List (String × List Path)) (token : String) (path : Path) :
    List (String × List Path) :=
  match groups with
  | [] => [(token, [path])]
  | (name, paths) :: rest =>
    if name = token then (name, paths ++ [path]) :: rest
    else (name, paths) :: addPath rest token path

/-- The distinct tokens in the order of their first places, each with all its paths. -/
def grouped (scan : Scan) : List (String × List Path) :=
  scan.occurrences.foldl (fun groups o => addPath groups o.token o.path) []

/-- The distinct tokens in the order of their characters. -/
def tokens (scan : Scan) : List String :=
  (scan.grouped.map (·.1)).mergeSort fun a b => a ≤ b

/-! ## With one path -/

/-- The scan of nothing. -/
def empty : Scan := ⟨[], []⟩

/-- Adds a piece of a string. -/
def addPiece (path : Path) (scan : Scan) : Piece → Scan
  | .token name => { scan with occurrences := scan.occurrences ++ [⟨.ofList name, path⟩] }
  | .problem kind text =>
    if counts path.finalKey? kind then
      { scan with issues := scan.issues ++ [⟨kind, .ofList text, path⟩] }
    else scan

/-- Adds the pieces of a string; one without braces is passed over. -/
def addString (path : Path) (text : String) (scan : Scan) : Scan :=
  if text.toList.any isBrace then (pieces text.toList).foldl (addPiece path) scan else scan

/-- Enters the members of an object one by one, its merge array left out. The path is the address of
the object, before and after. -/
def enterMembers (enter : String → Json → Path × Scan → Path × Scan) :
    Members → Path × Scan → Path × Scan
  | [], here => here
  | (key, value) :: rest, (path, scan) =>
    if key = "merge" then enterMembers enter rest (path, scan)
    else
      let (inner, scan) := enter key value (path.key key, scan)
      enterMembers enter rest (inner.pop, scan)

/-- Adds the strings of a member of the template. -/
def enterTemplate (_ : String) (value : Json) (here : Path × Scan) : Path × Scan :=
  value.walk addString here

/-- Adds the strings of a member of the root. -/
def enterRoot (key : String) (value : Json) (here : Path × Scan) : Path × Scan :=
  match value with
  | .object template =>
    if key = "template" then enterMembers enterTemplate template here
    else value.walk addString here
  | _ => value.walk addString here

/-- The path after a walk through a document, and the scan that the walk makes. -/
def ofWalk (doc : Document) : Path × Scan := enterMembers enterRoot doc.root (.root, .empty)

end Scan

end VideoScript.Placeholder
