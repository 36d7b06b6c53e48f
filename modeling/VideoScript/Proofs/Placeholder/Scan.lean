import VideoScript.Placeholder.Scan
import VideoScript.Proofs.Json.Rewrite
import VideoScript.Proofs.Lists

/-!
# What the scan of a document covers

The scan goes through the strings of every member of the root and of the template, but for the merge
arrays (`leavesAt_subset_of_root`, `leavesAt_subset_of_template`). So it covers the timeline and the
output settings wherever they stand (`timelineLeaves_subset`, `outputLeaves_subset`), and every
placeholder in a string there is an occurrence (`mem_occurrences`).

The path of a string says whether the scan covers it: it does unless the path starts in a merge array
(`scannedLeaves_eq`).
-/

set_option autoImplicit false

namespace VideoScript.Placeholder

open Json

variable {doc : Document} {name : String} {value : Json}

theorem leavesAt_subset_of_root (h : doc.root.get? name = some value) (hm : name ≠ "merge")
    (ht : name ≠ "template") : leavesAt (Path.root.key name) value ⊆ scannedLeaves doc := by
  intro leaf hl
  rw [scannedLeaves, List.mem_flatMap]
  refine ⟨_, List.mem_filter.2 ⟨Members.mem_of_get? h, by simpa using hm⟩, ?_⟩
  dsimp only
  split
  · rw [if_neg ht]
    exact hl
  · exact hl

theorem leavesAt_subset_of_template {template : Members} (ht : doc.template? = some template)
    (h : template.get? name = some value) (hm : name ≠ "merge") :
    leavesAt ((Path.root.key "template").key name) value ⊆ scannedLeaves doc := by
  intro leaf hl
  obtain ⟨root, hr, ht⟩ := Option.bind_eq_some_iff.1 ht
  cases root <;> cases ht
  rw [scannedLeaves, List.mem_flatMap]
  refine ⟨_, List.mem_filter.2 ⟨Members.mem_of_get? hr, by simp⟩, ?_⟩
  dsimp only
  rw [if_pos rfl, templateLeaves, memberLeaves_eq, List.mem_flatMap]
  refine ⟨(name, value), ?_, hl⟩
  rw [List.mem_filter]
  exact ⟨Members.mem_of_get? h, by simpa using hm⟩

theorem timelineLeaves_subset (h : doc.timeline? = some value) :
    leavesAt doc.timelinePath value ⊆ scannedLeaves doc := by
  unfold Document.timelinePath
  unfold Document.timeline? at h
  cases hs : doc.shape with
  | template =>
    rw [hs] at h
    obtain ⟨template, ht, h⟩ := Option.bind_eq_some_iff.1 h
    exact leavesAt_subset_of_template ht h (by decide)
  | legacy =>
    rw [hs] at h
    exact leavesAt_subset_of_root h (by decide) (by decide)

theorem outputLeaves_subset {output : Located Json} (h : doc.output? = some output) :
    leavesAt output.path output.value ⊆ scannedLeaves doc := by
  unfold Document.output? Document.rootOrTemplate? at h
  cases hr : doc.root.get? "output" with
  | some v =>
    rw [hr] at h
    cases h
    exact leavesAt_subset_of_root hr (by decide) (by decide)
  | none =>
    rw [hr] at h
    obtain ⟨template, ht, h⟩ := Option.bind_eq_some_iff.1 h
    obtain ⟨v, hv, h⟩ := Option.bind_eq_some_iff.1 h
    cases h
    exact leavesAt_subset_of_template ht hv (by decide)

/-- Every placeholder in a string that the scan covers is an occurrence. -/
theorem mem_occurrences {leaf : Leaf} (hl : leaf ∈ scannedLeaves doc) {token : List Char}
    (h : .token token ∈ pieces leaf.text.toList) :
    ⟨.ofList token, leaf.path⟩ ∈ (scan doc).occurrences := by
  rw [scan, List.mem_flatMap]
  refine ⟨leaf, hl, ?_⟩
  rw [leafOccurrences, List.mem_filterMap]
  exact ⟨.token token, h, rfl⟩

/-- Every problem that counts in a string that the scan covers is an issue. -/
theorem mem_issues {leaf : Leaf} (hl : leaf ∈ scannedLeaves doc) {kind : Problem} {text : List Char}
    (h : .problem kind text ∈ pieces leaf.text.toList) (hc : counts leaf.path.finalKey? kind = true) :
    ⟨kind, .ofList text, leaf.path⟩ ∈ (scan doc).issues := by
  rw [scan, List.mem_flatMap]
  refine ⟨leaf, hl, ?_⟩
  rw [leafIssues, List.mem_filterMap]
  exact ⟨.problem kind text, h, if_pos hc⟩

/-! ## What the scan leaves out -/

/-- Whether a path starts in the merge array of the root or of the template. -/
def inMerge (path : Path) : Bool :=
  match path.steps with
  | .key "merge" :: _ => true
  | .key "template" :: .key "merge" :: _ => true
  | _ => false

theorem inMerge_root {path : Path} (h : (Path.root.key name).steps <+: path.steps)
    (ht : name ≠ "template") : inMerge path = decide (name = "merge") := by
  obtain ⟨steps, hs⟩ := h
  rw [inMerge, ← hs]
  by_cases hm : name = "merge"
  · subst hm
    rfl
  · simp [Path.root, Path.key, Path.push, hm, ht]

theorem inMerge_template {path : Path}
    (h : ((Path.root.key "template").key name).steps <+: path.steps) :
    inMerge path = decide (name = "merge") := by
  obtain ⟨steps, hs⟩ := h
  rw [inMerge, ← hs]
  by_cases hm : name = "merge"
  · subst hm
    rfl
  · simp [Path.root, Path.key, Path.push, hm]

theorem inMerge_of_not_object {leaf : Leaf} (hv : value.members? = none)
    (h : leaf ∈ leavesAt (Path.root.key "template") value) : inMerge leaf.path = false := by
  rw [inMerge]
  rcases index_of_mem_leavesAt h hv with hp | ⟨i, rest, hp⟩ <;> rw [hp] <;> rfl

/-- The strings of a value that are all inside or all outside a merge array. -/
theorem filter_inMerge {path : Path} {b : Bool}
    (h : ∀ leaf ∈ leavesAt path value, inMerge leaf.path = b) :
    (leavesAt path value).filter (fun leaf => !inMerge leaf.path) =
      if b then [] else leavesAt path value := by
  cases b with
  | true => exact List.filter_eq_nil_iff.2 fun leaf hl => by simp [h leaf hl]
  | false => exact List.filter_eq_self.2 fun leaf hl => by simp [h leaf hl]

theorem filter_template (members : Members) :
    (leavesAt (Path.root.key "template") (.object members)).filter (fun leaf => !inMerge leaf.path) =
      templateLeaves (Path.root.key "template") members := by
  rw [leavesAt, templateLeaves, memberLeaves_eq, memberLeaves_eq, List.filter_flatMap]
  refine flatMap_eq_flatMap_filter fun m _ => ?_
  rw [filter_inMerge fun leaf hl => inMerge_template (prefix_of_mem_leavesAt hl)]
  by_cases hm : m.1 = "merge" <;> simp [hm]

/-- The scan covers the strings that stand in no merge array. -/
theorem scannedLeaves_eq :
    scannedLeaves doc = (leaves doc.toJson).filter fun leaf => !inMerge leaf.path := by
  rw [leaves, Document.toJson, leavesAt, memberLeaves_eq, List.filter_flatMap, scannedLeaves]
  refine (flatMap_eq_flatMap_filter fun m _ => ?_).symm
  obtain ⟨name, value⟩ := m
  dsimp only
  by_cases ht : name = "template"
  · subst ht
    -- only a template that is an object has a merge array of its own
    cases value with
    | object members => exact filter_template members
    | _ =>
      rw [filter_inMerge fun leaf hl => inMerge_of_not_object rfl hl]
      rfl
  · rw [filter_inMerge fun leaf hl => inMerge_root (prefix_of_mem_leavesAt hl) ht]
    by_cases hm : name = "merge" <;> cases value <;> simp [hm, ht]

end VideoScript.Placeholder
