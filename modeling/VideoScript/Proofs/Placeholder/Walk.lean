import VideoScript.Proofs.Json.Walk
import VideoScript.Proofs.Placeholder.Pieces
import VideoScript.Proofs.Placeholder.Scan

/-!
# The scan with one path

A walk through a document that keeps one path makes the scan of the document and comes back to the
root (`ofWalk_eq`). Adding a string to a scan adds what the string has (`addString_eq`), so adding
strings in order adds what they have in order (`visitAll_addString`); entering the members of an
object restores the path after each of them, the merge array included (`enterMembers_eq`).

A document without its merge arrays has just the strings that the scan covers
(`leaves_withoutMerge`), so the scan does not depend on where they stand and what they hold.
-/

set_option autoImplicit false

namespace VideoScript.Placeholder

open Json

namespace Scan

/-! ## What is added to a scan -/

/-- One scan after another. -/
def append (first second : Scan) : Scan :=
  ⟨first.occurrences ++ second.occurrences, first.issues ++ second.issues⟩

theorem append_assoc (a b c : Scan) : (a.append b).append c = a.append (b.append c) := by
  simp [append]

theorem append_empty (scan : Scan) : scan.append empty = scan := by
  simp [append, empty]

theorem empty_append (scan : Scan) : empty.append scan = scan := rfl

/-- The scan of some strings. -/
def ofLeaves (found : List Leaf) : Scan :=
  ⟨found.flatMap leafOccurrences, found.flatMap leafIssues⟩

theorem ofLeaves_cons (leaf : Leaf) (found : List Leaf) :
    ofLeaves (leaf :: found) = (ofLeaves [leaf]).append (ofLeaves found) := by
  simp [ofLeaves, append]

/-- What the pieces of a string at a path add. -/
def ofPieces (path : Path) (found : List Piece) : Scan :=
  ⟨found.filterMap fun
      | .token name => some ⟨.ofList name, path⟩
      | .problem _ _ => none,
    found.filterMap fun
      | .problem kind text =>
        if counts path.finalKey? kind then some ⟨kind, .ofList text, path⟩ else none
      | .token _ => none⟩

theorem foldl_addPiece (path : Path) (found : List Piece) (scan : Scan) :
    found.foldl (addPiece path) scan = scan.append (ofPieces path found) := by
  induction found generalizing scan with
  | nil => exact (append_empty scan).symm
  | cons piece found ih =>
    rw [List.foldl_cons, ih]
    cases piece with
    | token name => simp [addPiece, append, ofPieces]
    | problem kind text =>
      by_cases hc : counts path.finalKey? kind = true <;> simp [addPiece, append, ofPieces, hc]

/-- Adding a string adds what its pieces are; without a brace it has none. -/
theorem addString_eq (leaf : Leaf) (scan : Scan) :
    addString leaf.path leaf.text scan = scan.append (ofLeaves [leaf]) := by
  have hpieces : ofLeaves [leaf] = ofPieces leaf.path (pieces leaf.text.toList) := by
    rw [ofLeaves, List.flatMap_singleton, List.flatMap_singleton]
    rfl
  rw [addString, hpieces]
  split
  · exact foldl_addPiece _ _ _
  · rename_i h
    have hplain : leaf.text.toList.all isPlain = true := by
      simpa [isPlain] using h
    rw [pieces_of_plain hplain]
    exact (append_empty scan).symm

theorem visitAll_addString (found : List Leaf) (scan : Scan) :
    visitAll addString found scan = scan.append (ofLeaves found) := by
  induction found generalizing scan with
  | nil => exact (append_empty scan).symm
  | cons leaf found ih =>
    rw [ofLeaves_cons, ← append_assoc, ← addString_eq]
    exact ih _

/-! ## The walk through the members -/

/-- Entering the members outside the merge array adds their strings in order and restores the
path. -/
theorem enterMembers_eq {enter : String → Json → Path × Scan → Path × Scan}
    {found : Path → String → Json → List Leaf}
    (h : ∀ key value path scan, enter key value (path, scan) =
      (path, visitAll addString (found path key value) scan))
    (members : Members) (path : Path) (scan : Scan) : enterMembers enter members (path, scan) =
      (path, visitAll addString ((members.filter fun (key, _) => key ≠ "merge").flatMap
        fun (key, value) => found (path.key key) key value) scan) := by
  induction members generalizing scan with
  | nil => rfl
  | cons m rest ih =>
    obtain ⟨key, value⟩ := m
    rw [enterMembers, List.filter_cons]
    by_cases hm : key = "merge"
    · simp only [hm, ih, if_true, ne_eq, not_true_eq_false, decide_false, Bool.false_eq_true,
        if_false]
    · simp only [hm, h, Path.pop_key, ih, if_false, ne_eq, not_false_eq_true, decide_true, if_true,
        List.flatMap_cons, visitAll_append]

theorem enterTemplate_eq (key : String) (value : Json) (path : Path) (scan : Scan) :
    enterTemplate key value (path, scan) = (path, visitAll addString (leavesAt path value) scan) :=
  walk_eq value path scan

/-- The strings of a member of the root outside the merge array of the template. -/
def rootLeaves (path : Path) (key : String) (value : Json) : List Leaf :=
  match value with
  | .object template =>
    if key = "template" then templateLeaves path template else leavesAt path value
  | _ => leavesAt path value

theorem enterRoot_eq (key : String) (value : Json) (path : Path) (scan : Scan) :
    enterRoot key value (path, scan) =
      (path, visitAll addString (rootLeaves path key value) scan) := by
  cases value with
  | object template =>
    unfold enterRoot rootLeaves
    dsimp only
    split
    · rw [enterMembers_eq enterTemplate_eq, templateLeaves, memberLeaves_eq]
    · exact walk_eq _ path scan
  | _ => exact walk_eq _ path scan

/-- A walk through a document makes its scan and comes back to the root. -/
theorem ofWalk_eq (doc : Document) : ofWalk doc = (.root, scan doc) := by
  rw [ofWalk, enterMembers_eq enterRoot_eq, visitAll_addString, empty_append]
  rfl

end Scan

/-! ## Documents without merge arrays -/

/-- The members of an object other than its merge array. -/
def outsideMerge (members : Members) : Members := members.filter fun (key, _) => key ≠ "merge"

/-- A document without the merge arrays of the root and of the template. -/
def withoutMerge (doc : Document) : Document :=
  ⟨(outsideMerge doc.root).map fun (key, value) =>
    match value with
    | .object template => (key, if key = "template" then .object (outsideMerge template) else value)
    | _ => (key, value)⟩

/-- Without its merge arrays a document has the strings that the scan covers. -/
theorem leaves_withoutMerge (doc : Document) :
    leaves (withoutMerge doc).toJson = scannedLeaves doc := by
  rw [leaves, Document.toJson, leavesAt, memberLeaves_eq, withoutMerge, List.flatMap_map,
    scannedLeaves]
  refine List.flatMap_congr fun m _ => ?_
  obtain ⟨key, value⟩ := m
  cases value with
  | object template =>
    dsimp only
    split
    · rw [leavesAt]
      rfl
    · rfl
  | _ => rfl

/-- The scan of a document is that of its strings outside the merge arrays. -/
theorem scan_eq (doc : Document) : scan doc = .ofLeaves (leaves (withoutMerge doc).toJson) := by
  rw [leaves_withoutMerge]
  rfl

/-- **The scan sees every string outside the merge arrays and nothing else.** The strings that it
sees are those to which a path outside the merge arrays leads, each once and in the order of the
document. The placeholders and the problems of the scan are those of the pieces of these strings, each
with the path of its string; under the key `css` the problems other than empty placeholders are
left out. The walk with one path makes the same scan and restores its path. So the scan does not
depend on the merge arrays: their values, their places and whether they are there. -/
theorem scan_sees_outside_merge (doc : Document) (hdoc : WellFormed doc.toJson) :
    let seen := (leaves doc.toJson).filter fun leaf => !inMerge leaf.path
    (∀ leaf, leaf ∈ seen ↔
      PartAt doc.toJson leaf.path (.string leaf.text) ∧ inMerge leaf.path = false) ∧
    (seen.map (·.path)).Nodup ∧
    (scan doc).occurrences = seen.flatMap (fun leaf =>
      (pieces leaf.text.toList).filterMap fun
        | .token name => some ⟨.ofList name, leaf.path⟩
        | .problem _ _ => none) ∧
    (scan doc).issues = seen.flatMap (fun leaf =>
      (pieces leaf.text.toList).filterMap fun
        | .problem kind text =>
          if leaf.path.finalKey? = some "css" ∧ kind ≠ .empty then none
          else some ⟨kind, .ofList text, leaf.path⟩
        | .token _ => none) ∧
    Scan.ofWalk doc = (.root, scan doc) ∧
    ∀ other, withoutMerge other = withoutMerge doc → scan other = scan doc := by
  intro seen
  have hseen : scannedLeaves doc = seen := scannedLeaves_eq
  refine ⟨fun leaf => ?_, ?_, ?_, ?_, Scan.ofWalk_eq doc, fun other h => ?_⟩
  · rw [List.mem_filter, mem_leaves_iff hdoc, Bool.not_eq_true']
    rfl
  · exact (nodup_paths hdoc).sublist (List.filter_sublist.map _)
  · rw [scan, hseen]
    rfl
  · rw [scan, hseen]
    refine List.flatMap_congr fun leaf _ => List.filterMap_congr fun piece _ => ?_
    cases piece with
    | token name => rfl
    | problem kind text =>
      by_cases hcss : leaf.path.finalKey? = some "css" <;> by_cases hk : kind = .empty <;>
        simp [counts, hcss, hk]
  · rw [scan_eq, scan_eq, h]

/-- A template with braces in its timeline, in a style sheet and in both merge arrays. -/
def bracedTemplate : Document :=
  ⟨[("merge", .array [.string "\x7b\x7bA\x7d\x7d"]),
    ("template", .object [("css", .string "b\x7b\x7d"),
      ("merge", .object [("timeline", .string "\x7b")]),
      ("timeline", .array [.string "\x7b\x7bB\x7d\x7d\x7d"])])]⟩

theorem scan_sees_outside_merge_braced :
    let timeline := ((Path.root.key "template").key "timeline").index 0
    let moved : Document := ⟨bracedTemplate.root.reverse⟩
    WellFormed bracedTemplate.toJson ∧ withoutMerge moved = withoutMerge bracedTemplate ∧
      scan moved = ⟨[⟨"B", timeline⟩], [⟨.unmatchedClose, "\x7d", timeline⟩]⟩ := by
  have hdoc : WellFormed bracedTemplate.toJson := by decide +kernel
  have hmoved : withoutMerge ⟨bracedTemplate.root.reverse⟩ = withoutMerge bracedTemplate := rfl
  obtain ⟨-, -, -, -, -, hscan⟩ := scan_sees_outside_merge bracedTemplate hdoc
  refine ⟨hdoc, hmoved, (hscan _ hmoved).trans ?_⟩
  decide +kernel

end VideoScript.Placeholder
