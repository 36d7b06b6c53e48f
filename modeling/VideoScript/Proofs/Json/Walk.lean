import VideoScript.Proofs.Json.Places

/-!
# Walking through the strings of a value

A walk comes back with the path that it started with, and it visits the strings of the value in
order, each at its own path (`walk_eq`).

In a well-formed value the paths of the strings are the ways to them: a path leads to a string
exactly when the string is listed with it (`mem_leaves_iff`), and no two strings have one path
(`nodup_paths`).
-/

set_option autoImplicit false

namespace VideoScript.Json

/-! ## The order of the visits -/

theorem Path.pop_key (path : Path) (name : String) : (path.key name).pop = path := by
  simp [pop, key, push]

theorem Path.pop_index (path : Path) (i : Nat) : (path.index i).pop = path := by
  simp [pop, index, push]

section
variable {σ : Type} {visit : Path → String → σ → σ}

/-- Visits listed strings in order. -/
def visitAll (visit : Path → String → σ → σ) (found : List Leaf) (state : σ) : σ :=
  found.foldl (fun state leaf => visit leaf.path leaf.text state) state

theorem visitAll_append (first second : List Leaf) (state : σ) :
    visitAll visit (first ++ second) state = visitAll visit second (visitAll visit first state) :=
  List.foldl_append

theorem walkItems_eq {items : List Json}
    (h : ∀ v ∈ items, ∀ path state,
      walk visit v (path, state) = (path, visitAll visit (leavesAt path v) state))
    (i : Nat) (path : Path) (state : σ) : walkItems visit i items (path, state) =
      (path, visitAll visit (itemLeaves path i items) state) := by
  induction items generalizing i state with
  | nil => rfl
  | cons v items ih =>
    obtain ⟨hv, hrest⟩ := List.forall_mem_cons.1 h
    rw [walkItems, hv, itemLeaves, visitAll_append]
    dsimp only
    rw [Path.pop_index, ih hrest]

theorem walkMembers_eq {members : Members}
    (h : ∀ m ∈ members, ∀ path state,
      walk visit m.2 (path, state) = (path, visitAll visit (leavesAt path m.2) state))
    (path : Path) (state : σ) : walkMembers visit members (path, state) =
      (path, visitAll visit (memberLeaves path members) state) := by
  induction members generalizing state with
  | nil => rfl
  | cons m members ih =>
    obtain ⟨hm, hrest⟩ := List.forall_mem_cons.1 h
    rw [walkMembers, hm, memberLeaves, visitAll_append]
    dsimp only
    rw [Path.pop_key, ih hrest]

/-- A walk restores its path and visits the strings of the value in order, each at its own path. -/
theorem walk_eq (v : Json) (path : Path) (state : σ) :
    walk visit v (path, state) = (path, visitAll visit (leavesAt path v) state) := by
  induction v using induction generalizing path state with
  | null | bool | number | string => rfl
  | array items ih => exact walkItems_eq ih 0 path state
  | object members ih => exact walkMembers_eq ih path state

end

/-! ## The paths of the strings -/

variable {path : Path} {v : Json}

/-- A string that a path leads to is listed with it. -/
theorem mem_leavesAt_of_follow? {steps : List Step} {s : String}
    (h : v.follow? steps = some (.string s)) : ⟨⟨path.steps ++ steps⟩, s⟩ ∈ leavesAt path v := by
  induction steps generalizing v path with
  | nil =>
    cases h
    simp [leavesAt]
  | cons step rest ih =>
    obtain ⟨child, hc, hf⟩ := Option.bind_eq_some_iff.1 h
    cases step with
    | key name =>
      obtain ⟨members, hm, hg⟩ := Option.bind_eq_some_iff.1 hc
      cases v <;> cases hm
      rw [leavesAt, memberLeaves_eq, List.mem_flatMap]
      exact ⟨_, Members.mem_of_get? hg, steps_key path name rest ▸ ih hf⟩
    | index i =>
      obtain ⟨items, hi, hg⟩ := Option.bind_eq_some_iff.1 hc
      cases v <;> cases hi
      rw [leavesAt, itemLeaves_eq, List.mem_flatMap]
      exact ⟨(child, i), List.mk_mem_zipIdx_iff_getElem?.2 hg, steps_index path i rest ▸ ih hf⟩

/-- The strings of a well-formed value are those that paths lead to. -/
theorem mem_leaves_iff (hw : WellFormed v) {leaf : Leaf} :
    leaf ∈ leaves v ↔ v.follow? leaf.path.steps = some (.string leaf.text) := by
  refine ⟨fun h => ?_, fun h => mem_leavesAt_of_follow? h⟩
  obtain ⟨steps, hp, hf⟩ := follow?_of_mem_leavesAt hw h
  rw [hp]
  exact hf

/-- No two strings of a well-formed value have one path. -/
theorem nodup_paths (hw : WellFormed v) : ((leavesAt path v).map (·.path)).Nodup := by
  induction v using induction generalizing path with
  | null | bool | number => exact .nil
  | string s => exact List.pairwise_singleton _ _
  | array items ih =>
    rw [leavesAt, itemLeaves_eq]
    exact nodup_items (fun v hv path leaf hl => prefix_of_mem_leavesAt hl)
      fun v hv path => ih v hv (hw.items v hv)
  | object members ih =>
    rw [leavesAt, memberLeaves_eq, List.Nodup, List.pairwise_map, List.pairwise_flatMap]
    refine ⟨fun m hm => List.pairwise_map.1 (ih m hm (hw.members m hm)), ?_⟩
    refine (List.pairwise_map.1 hw.keys).imp fun hne leaf hl leaf' hl' he => ?_
    have hp := prefix_of_mem_leavesAt hl
    exact hne (Step.key.inj (eq_of_prefix_push (he ▸ hp) (prefix_of_mem_leavesAt hl')))

end VideoScript.Json
