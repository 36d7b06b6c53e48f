import VideoScript.Text.Lines

/-!
# File paths as texts

A path is a text of names with slashes between them. It is absolute when it starts with a slash.
Empty names and single dots inside a path mean nothing; a single dot at the very start of a relative
path is kept as a part of it. Nothing here looks at a disk: two dots stay where they are.

`components` gives the parts that count, and two paths are the same when their components are.
`parent?`, `fileName?` and their kin cut the text itself, so that what is left keeps its spelling.
-/

set_option autoImplicit false

namespace VideoScript.Disk

open Text

/-- A part of a path. -/
inductive Component where
  | root
  | current
  | up
  | name (s : String)
  deriving DecidableEq, Repr

/-- Whether a path starts at the root of the disk. -/
def isAbsolute (path : String) : Bool := startsWith ['/'] path.toList

/-- Whether a path starts with a single dot. -/
def startsHere (s : List Char) : Bool :=
  match s with
  | ['.'] => true
  | '.' :: '/' :: _ => true
  | _ => false

/-- The part that a piece between slashes stands for. -/
def pieceComponent? (piece : List Char) : Option Component :=
  match piece with
  | [] => none
  | ['.'] => none
  | ['.', '.'] => some .up
  | _ => some (.name (.ofList piece))

/-- The parts of a path that count. -/
def components (path : String) : List Component :=
  let s := path.toList
  (if startsWith ['/'] s then [.root] else if startsHere s then [.current] else [])
  ++ (splitAt '/' s).filterMap pieceComponent?

/-- Whether two paths have the same components. -/
def samePath (a b : String) : Bool := components a = components b

/-- A path relative to another; an absolute path stays as it is. -/
def join (base path : String) : String :=
  if isAbsolute path then path
  else if base.isEmpty || base.toList.getLast? = some '/' then base ++ path
  else base ++ "/" ++ path

/-- How many characters at the start of a path are not part of any name: the slash of an absolute
path or the dot of one that starts here. -/
def leadLength (s : List Char) : Nat :=
  if startsWith ['/'] s || startsHere s then 1 else 0

/-- The last piece of the text after the lead, with the text before that piece; a slash between the
two belongs to neither. -/
def lastPiece (s : List Char) : List Char × List Char :=
  let lead := leadLength s
  let piece := ((s.drop lead).reverse.takeWhile (· ≠ '/')).reverse
  let before := s.take (s.length - piece.length)
  let before := if lead < before.length then before.dropLast else before
  (before, piece)

/-- The path without pieces at its end that mean nothing. -/
def trimPieces (s : List Char) : Nat → List Char
  | 0 => s
  | fuel + 1 =>
    if leadLength s < s.length then
      let (before, piece) := lastPiece s
      if (pieceComponent? piece).isNone then trimPieces before fuel else s
    else s

/-- The path without its last component, when it has one that is not the root. -/
def parent? (path : String) : Option String :=
  let s := trimPieces path.toList path.length
  if leadLength s < s.length then
    let before := (lastPiece s).1
    some (.ofList (trimPieces before before.length))
  else if startsHere s then some ""
  else none

/-- The path and the paths of all directories around it, from the inside out. -/
def ancestors (path : String) : List String := go path path.length
where
  /-- The path and at most `fuel` directories around it. -/
  go (path : String) : Nat → List String
    | 0 => [path]
    | fuel + 1 => path :: match parent? path with
      | some parent => go parent fuel
      | none => []

/-- The last component of a path, when it is a name. -/
def fileName? (path : String) : Option String :=
  match (components path).getLast? with
  | some (.name s) => some s
  | _ => none

/-- A name split at its last dot. A name without a dot, or whose only dot is its first character,
has no second part. -/
def splitName (name : List Char) : List Char × Option (List Char) :=
  let after := (name.reverse.takeWhile (· ≠ '.')).reverse
  let before := name.take (name.length - after.length - 1)
  if before.isEmpty then (name, none) else (before, some after)

/-- The name of a file without its extension. -/
def fileStem? (path : String) : Option String :=
  (fileName? path).map fun name => .ofList (splitName name.toList).1

/-- The extension of a file, without the dot. -/
def extension? (path : String) : Option String :=
  (fileName? path).bind fun name => (splitName name.toList).2.map .ofList

/-- The path with another extension; a path without a file name stays as it is. -/
def withExtension (path extension : String) : String :=
  match fileName? path with
  | none => path
  | some name =>
    let s := trimPieces path.toList path.length
    let before := s.take (s.length - name.length)
    .ofList (before ++ (splitName name.toList).1 ++ '.' :: extension.toList)

/-- The text of a component. -/
def Component.text : Component → String
  | .root => "/"
  | .current => "."
  | .up => ".."
  | .name s => s

/-- The path as seen from the root of the disk. Empty names and single dots go, two dots stay, and
so does a slash at the end. There is none for an empty path. -/
def absolute? (directory path : String) : Option String :=
  if path.isEmpty then none
  else
    let parts := (components path).filter fun c => c ≠ .current
    let start := if isAbsolute path then
        if startsWith ['/', '/'] path.toList && !startsWith ['/', '/', '/'] path.toList then "//"
        else "/"
      else directory
    let parts := parts.filter fun c => c ≠ .root
    let whole := parts.foldl (fun base c => join base c.text) start
    some (if path.toList.getLast? = some '/' then join whole "" else whole)

/-- The path as seen from the root of the disk, or the path itself when there is none. -/
def absolute (directory path : String) : String := (absolute? directory path).getD path

end VideoScript.Disk
