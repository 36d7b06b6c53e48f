import VideoScript.Finding
import VideoScript.Placeholder.Scan

/-!
# Placeholders and the merge array

Every placeholder of a document needs an entry in the merge array under its name, and every entry
is an object with two texts. Names are compared without the blanks around them. An entry whose name
stood before gives a warning, and an entry that no placeholder uses is mentioned.
-/

set_option autoImplicit false

namespace VideoScript.Rules

open Json Placeholder

/-- The names of placeholders, as a list for readers. -/
def namedTokens (groups : List (String × List Path)) : String :=
  ", ".intercalate (groups.map (·.1))

/-- The findings for a document with no merge array. -/
def absentMerge (groups : List (String × List Path)) : List Finding :=
  if groups.isEmpty then []
  else
    [(Finding.error .merge "merge" "merge array required when placeholders are present").suggest
      ("add a merge array with entries for: " ++ namedTokens groups)]

/-- The findings for a merge array with no entries. -/
def emptyMerge (path : Path) (groups : List (String × List Path)) : List Finding :=
  if groups.isEmpty then []
  else
    [(Finding.error .merge path.shown
      s!"merge array is empty but {groups.length} placeholders require substitution").suggest
      ("add entries for: " ++ namedTokens groups)]

/-- The name in a merge entry, when it is a text. -/
def entryName? (entry : Json) : Option String := (entry.get? "find").bind text?

/-- What is wrong with the parts of a merge entry. -/
def entryShapeFindings (path : Path) (members : Members) : List Finding :=
  (match members.get? "find" with
    | none => [Finding.error .merge path.shown "Missing required field: 'find'"]
    | some (.string _) => []
    | some _ => [Finding.error .merge (path.key "find").shown "find must be a string"])
  ++ (match members.get? "replace" with
    | none => [Finding.error .merge path.shown "Missing required field: 'replace'"]
    | some (.string _) => []
    | some _ => [Finding.error .merge (path.key "replace").shown "replace must be a string"])

/-- The names that entries have given so far, in order, each with the index of its entry. -/
abbrev Names := List (String × Nat)

/-- What the name of an entry gives: a warning, or a new name. -/
def nameFindings (names : Names) (path : Path) (i : Nat) (name : String) : List Finding × Names :=
  let name := Text.trim name
  if name.isEmpty then
    ([(Finding.warning .merge (path.key "find").shown "empty find value").suggest
      "set find to the placeholder name it replaces"], names)
  else match names.lookup name with
    | some first =>
      ([.warning .merge (path.key "find").shown
        s!"duplicate find value '{name}' (first defined at merge[{first}])"], names)
    | none => ([], names ++ [(name, i)])

/-- The findings for an entry, and the names with the one that it gives. -/
def entryFindings (names : Names) (path : Path) (i : Nat) (entry : Json) : List Finding × Names :=
  match entry with
  | .object members =>
    let shape := entryShapeFindings path members
    match entryName? entry with
    | none => (shape, names)
    | some name =>
      let (findings, names) := nameFindings names path i name
      (shape ++ findings, names)
  | _ => ([.error .merge path.shown "merge entry must be an object"], names)

/-- The findings for the entries from the index `i` on, and all names. -/
def entriesFindings (path : Path) (names : Names) (i : Nat) : List Json → List Finding × Names
  | [] => ([], names)
  | entry :: rest =>
    let (findings, names) := entryFindings names (path.index i) i entry
    let (more, names) := entriesFindings path names (i + 1) rest
    (findings ++ more, names)

/-- The error for a placeholder that no entry names. -/
def uncoveredFinding (token : String) (paths : List Path) : Finding :=
  ((Finding.error .merge ((paths.head?.map Path.shown).getD "")
    ("No merge entry found for placeholder: '" ++ token ++ "'")).suggest
    ("add \x7b\"find\": \"" ++ token ++ "\", \"replace\": \"...\"\x7d to merge")).seenAt
    (paths.map Path.shown)

/-- The note on an entry that no placeholder uses. -/
def unusedFinding (path : Path) (name : String) (i : Nat) : Finding :=
  .info .merge ((path.index i).key "find").shown ("unused merge entry '" ++ name ++ "'")

/-- The findings for a merge array with entries. -/
def filledMerge (path : Path) (entries : List Json) (groups : List (String × List Path)) :
    List Finding :=
  let (findings, names) := entriesFindings path [] 0 entries
  findings
  ++ (groups.filter fun (token, _) => (names.lookup token).isNone).map
    (fun (token, paths) => uncoveredFinding token paths)
  ++ (names.filter fun (name, _) => (groups.lookup name).isNone).map
    (fun (name, i) => unusedFinding path name i)

/-- The findings about placeholders and the merge array. -/
def coverage (doc : Document) (scan : Scan) : List Finding :=
  match doc.merge? with
  | none => absentMerge scan.grouped
  | some ⟨.array [], path⟩ => emptyMerge path scan.grouped
  | some ⟨.array entries, path⟩ => filledMerge path entries scan.grouped
  | some ⟨_, path⟩ => [.error .merge path.shown "merge must be an array"]

end VideoScript.Rules
