import VideoScript.Proofs.Json.Numbers
import VideoScript.Proofs.Placeholder.Scan
import VideoScript.Proofs.ShotList.Timeline

/-!
# The document of a plan

`plan.inDocument mode f` is the document of a plan whose numbers have been written and read again,
which may change them by `f`. Its parts stand where the shape has them, and the scan finds nothing
in braces but the sources of a template (`piece_inDocument`), each of them as a placeholder
(`token_of_occurrence`, `exists_occurrence`).
-/

set_option autoImplicit false

namespace VideoScript.ShotList

open Json Text Placeholder

/-! ## Look-ups -/

theorem get?_append (a b : Members) (key : String) :
    Members.get? (a ++ b) key = (a.get? key).or (b.get? key) :=
  List.lookup_append

theorem get?_memberIf (key other : String) (value : Option Json) :
    (memberIf key value).get? other = if other = key then value else none := by
  cases value with
  | none => exact (ite_self none).symm
  | some v =>
    rw [memberIf, Members.get?_cons]
    rfl

namespace Plan

variable {plan : Plan} {mode : Mode} {f : Json.Number → Json.Number}

/-- The members of the document of a plan. -/
def members (plan : Plan) (mode : Mode) : Members :=
  [("name", .string plan.name), ("resourcesDir", .string plan.resourcesDir)]
    ++ match mode with
      | .template => [("template", .object [("timeline", plan.timeline mode)]),
          ("output", plan.output), ("merge", plan.merge)]
      | .legacy => [("timeline", plan.timeline mode), ("output", plan.output)]

theorem document_eq (plan : Plan) (mode : Mode) :
    plan.document mode = .object (plan.members mode) := by
  cases mode <;> rfl

/-- The document of a plan with its numbers changed. -/
def inDocument (plan : Plan) (mode : Mode) (f : Json.Number → Json.Number) : Document :=
  ⟨mapMembers f (plan.members mode)⟩

theorem ofJson?_document (plan : Plan) (mode : Mode) (f : Json.Number → Json.Number) :
    Document.ofJson? (mapNumbers f (plan.document mode)) = some (plan.inDocument mode f) := by
  rw [document_eq]
  rfl

/-! ## The parts of the document -/

/-- The path of the timeline in each shape. -/
def timelinePath : Mode → Path
  | .template => (Path.root.key "template").key "timeline"
  | .legacy => Path.root.key "timeline"

theorem timelinePath_inDocument :
    (plan.inDocument mode f).timelinePath = timelinePath mode := by
  cases mode <;> rfl

theorem timeline?_inDocument :
    (plan.inDocument mode f).timeline? = some (mapNumbers f (plan.timeline mode)) := by
  cases mode <;> rfl

theorem output?_inDocument :
    (plan.inDocument mode f).output? = some ⟨mapNumbers f plan.output, Path.root.key "output"⟩ := by
  cases mode <;> rfl

/-- The entries of the merge array of a template. -/
def entries (plan : Plan) : List Json :=
  plan.distinctMedia.map fun path => .object [("find", .string path), ("replace", .string "")]

theorem merge?_template :
    (plan.inDocument .template f).merge? = some ⟨.array plan.entries, Path.root.key "merge"⟩ := by
  have hentries : mapItems f plan.entries = plan.entries := by
    rw [mapItems_eq, entries, List.map_map]
    rfl
  show some (Located.mk (Json.array (mapItems f plan.entries)) (Path.root.key "merge")) = _
  rw [hentries]

theorem merge?_legacy : (plan.inDocument .legacy f).merge? = none := rfl

/-! ## The strings of the document -/

theorem scannedLeaves_inDocument :
    scannedLeaves (plan.inDocument mode f) =
      ⟨Path.root.key "name", plan.name⟩ :: ⟨Path.root.key "resourcesDir", plan.resourcesDir⟩ ::
        (leavesAt (timelinePath mode) (plan.timeline mode)
          ++ leavesAt (Path.root.key "output") plan.output) := by
  cases mode with
  | legacy =>
    show scannedLeaves ⟨[("name", _), ("resourcesDir", _), ("timeline", mapNumbers f _),
      ("output", mapNumbers f plan.output)]⟩ = _
    simp only [scannedLeaves, ne_eq, decide_not, String.reduceEq, decide_false, Bool.not_false,
      List.filter_cons_of_pos, List.filter_nil, List.flatMap_cons, ↓reduceIte, leavesAt_mapNumbers,
      List.flatMap_nil, List.append_nil]
    rfl
  | template =>
    show scannedLeaves ⟨[("name", _), ("resourcesDir", _),
      ("template", .object [("timeline", mapNumbers f _)]), ("output", mapNumbers f plan.output),
      ("merge", _)]⟩ = _
    simp only [scannedLeaves, templateLeaves, ne_eq, decide_not, String.reduceEq, decide_false,
      Bool.not_false, List.filter_cons_of_pos, decide_true, Bool.not_true, Bool.false_eq_true,
      not_false_eq_true, List.filter_cons_of_neg, List.filter_nil, List.flatMap_cons, ↓reduceIte,
      leavesAt_mapNumbers, memberLeaves, List.append_nil, List.flatMap_nil]
    rfl

theorem output_plain (hp : plan.Plain) {path : Path} {leaf : Leaf}
    (h : leaf ∈ leavesAt path plan.output) : BraceFree leaf.text.toList := by
  have hnumber (key : String) (n : Option Nat) :
      memberLeaves path (memberIf key (n.map .ofNat)) = [] := by
    rw [memberLeaves_memberIf]
    cases n <;> rfl
  have hcapture : memberLeaves path (memberIf "thumbnail"
      (plan.capture.map fun n => .object [("capture", .ofNat n)])) = [] := by
    rw [memberLeaves_memberIf]
    cases plan.capture <;> rfl
  have htext {key : String} {value : Option String} (hv : ∀ s, value = some s → BraceFree s.toList)
      (h : leaf ∈ memberLeaves path (memberIf key (value.map .string))) :
      BraceFree leaf.text.toList := by
    rw [memberLeaves_memberIf] at h
    cases hvalue : value with
    | none => simp [hvalue] at h
    | some s =>
      rw [hvalue, Option.map_some, Option.toList_some, List.flatMap_singleton, leavesAt,
        List.mem_singleton] at h
      exact h ▸ hv s hvalue
  rw [output, leavesAt, memberLeaves_append, memberLeaves_append, memberLeaves_append,
    memberLeaves_append, hnumber, hcapture, List.append_nil, List.append_nil, List.mem_append,
    List.mem_append] at h
  rcases h with (h | h) | h
  · rw [memberLeaves, memberLeaves, List.append_nil, leavesAt, List.mem_singleton] at h
    exact h ▸ hp.format
  · exact htext hp.resolution h
  · refine htext (fun s hs => ?_) h
    obtain ⟨header, -, haccepted⟩ := Option.bind_eq_some_iff.1 hs
    split at haccepted
    · rename_i haccepts
      cases haccepted
      exact braceFree_of_mem_values (List.contains_iff_mem.1 haccepts)
    · cases haccepted

/-! ## What the scan finds -/

/-- A string of the document has no brace, or it is a source of a template. -/
theorem text_inDocument (hp : plan.Plain) (ht : plan.Tidy) {leaf : Leaf}
    (h : leaf ∈ scannedLeaves (plan.inDocument mode f)) :
    BraceFree leaf.text.toList ∨
      mode = .template ∧ ∃ file ∈ plan.mediaFiles, leaf.text = Mode.template.source file := by
  rw [scannedLeaves_inDocument, List.mem_cons, List.mem_cons, List.mem_append] at h
  rcases h with rfl | rfl | h | h
  · exact .inl hp.name
  · exact .inl hp.dir
  · cases mode with
    | legacy =>
      rcases source_or_plain hp h with ⟨-, hfile⟩ | ⟨-, hplain⟩
      · exact .inl (hp.mediaFile ht hfile)
      · exact .inl hplain
    | template =>
      rw [timeline_template plan (timelinePath .template), leavesAt_rewriteAt] at h
      obtain ⟨old, hold, rfl⟩ := List.mem_map.1 h
      rcases source_or_plain hp hold with ⟨hkey, hfile⟩ | ⟨hkey, hplain⟩
      · exact .inr ⟨rfl, _, hfile, if_pos hkey⟩
      · refine .inl ?_
        dsimp only
        rwa [braceSource, if_neg hkey]
  · exact .inl (output_plain hp h)

/-- What the document has in braces are its sources. -/
theorem piece_inDocument (hp : plan.Plain) (ht : plan.Tidy) {leaf : Leaf}
    (h : leaf ∈ scannedLeaves (plan.inDocument mode f)) {piece : Piece}
    (hpiece : piece ∈ pieces leaf.text.toList) :
    mode = .template ∧ ∃ file ∈ plan.mediaFiles, piece = .token (trimChars file.toList) := by
  rcases text_inDocument hp ht h with hplain | ⟨hmode, file, hfile, htext⟩
  · rw [pieces_eq_nil_iff.2 hplain] at hpiece
    cases hpiece
  · rw [htext, pieces_braced (hp.mediaFile ht hfile) (ht.trimChars_ne_nil hfile)] at hpiece
    exact ⟨hmode, file, hfile, List.mem_singleton.1 hpiece⟩

theorem issues_inDocument (hp : plan.Plain) (ht : plan.Tidy) :
    (scan (plan.inDocument mode f)).issues = [] := by
  refine List.eq_nil_iff_forall_not_mem.2 fun issue hi => ?_
  obtain ⟨leaf, hl, hi⟩ := List.mem_flatMap.1 hi
  obtain ⟨piece, hpiece, hi⟩ := List.mem_filterMap.1 hi
  obtain ⟨-, file, -, rfl⟩ := piece_inDocument hp ht hl hpiece
  cases hi

theorem token_of_occurrence (hp : plan.Plain) (ht : plan.Tidy) {o : Occurrence}
    (h : o ∈ (scan (plan.inDocument mode f)).occurrences) :
    mode = .template ∧ ∃ file ∈ plan.mediaFiles, o.token = trim file := by
  obtain ⟨leaf, hl, ho⟩ := List.mem_flatMap.1 h
  obtain ⟨piece, hpiece, ho⟩ := List.mem_filterMap.1 ho
  obtain ⟨hmode, file, hfile, rfl⟩ := piece_inDocument hp ht hl hpiece
  cases ho
  exact ⟨hmode, file, hfile, rfl⟩

theorem exists_occurrence (hp : plan.Plain) (ht : plan.Tidy) {file : String}
    (hfile : file ∈ plan.mediaFiles) :
    ∃ o ∈ (scan (plan.inDocument .template f)).occurrences, o.token = trim file := by
  obtain ⟨leaf, hl, -, htext⟩ := exists_source (timelinePath .template) hfile .template
  have hscanned : leaf ∈ scannedLeaves (plan.inDocument .template f) := by
    rw [scannedLeaves_inDocument]
    simp [hl]
  have hpiece : .token (trimChars file.toList) ∈ pieces leaf.text.toList := by
    rw [htext, pieces_braced (hp.mediaFile ht hfile) (ht.trimChars_ne_nil hfile)]
    exact List.mem_cons_self
  exact ⟨_, mem_occurrences hscanned hpiece, rfl⟩

end Plan

end VideoScript.ShotList
