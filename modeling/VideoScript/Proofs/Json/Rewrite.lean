import VideoScript.Json.Leaves
import VideoScript.Proofs.Json.WellFormed

/-!
# Rewriting the strings of a value

`rewriteAt f path v` is `v`, which stands at `path`, with every string inside it given to `f`
together with its path; nothing else changes. Rewriting goes along with the other ways into a value:

* `follow?_rewriteAt`: what a path leads to is what it led to before, rewritten.
* `leavesAt_rewriteAt`: the strings of the value are the strings from before, rewritten in place.
  What they say does not depend on the path of the value (`texts_leavesAt`), nor do their keys
  (`keys_leavesAt`).
* `rewriteAt_rewriteAt`: rewriting twice is rewriting once.
* `replace?_string`: in a well-formed value, replacing one string is rewriting with `overwrite`.

The paths of the strings lead to them (`follow?_of_mem_leavesAt`).
-/

set_option autoImplicit false

namespace VideoScript.Json

/-! ## Rewriting -/

mutual

/-- The value with its strings rewritten; `path` is the path of the value. -/
def rewriteAt (f : Path → String → String) (path : Path) : Json → Json
  | string s => string (f path s)
  | array items => array (rewriteItems f path 0 items)
  | object members => object (rewriteMembers f path members)
  | null => null
  | bool b => bool b
  | number n => number n

/-- The items of an array with their strings rewritten; the first item has the index `i`. -/
def rewriteItems (f : Path → String → String) (path : Path) (i : Nat) : List Json → List Json
  | [] => []
  | value :: rest => rewriteAt f (path.index i) value :: rewriteItems f path (i + 1) rest

/-- The members of an object with their strings rewritten. -/
def rewriteMembers (f : Path → String → String) (path : Path) :
    List (String × Json) → List (String × Json)
  | [] => []
  | (key, value) :: rest => (key, rewriteAt f (path.key key) value) :: rewriteMembers f path rest

end

/-- Writes a text at one path. -/
def overwrite (target : Path) (text : String) (path : Path) (old : String) : String :=
  if path = target then text else old

variable {f g : Path → String → String} {path : Path} {v : Json}

theorem rewriteItems_eq (items : List Json) (i : Nat) :
    rewriteItems f path i items =
      (items.zipIdx i).map fun x => rewriteAt f (path.index x.2) x.1 := by
  induction items generalizing i with
  | nil => rfl
  | cons v items ih => rw [rewriteItems, ih, List.zipIdx_cons, List.map_cons]

theorem rewriteMembers_eq (members : Members) :
    rewriteMembers f path members = members.map fun m => (m.1, rewriteAt f (path.key m.1) m.2) := by
  induction members with
  | nil => rfl
  | cons m members ih => rw [rewriteMembers, ih, List.map_cons]

theorem itemLeaves_eq (items : List Json) (i : Nat) :
    itemLeaves path i items = (items.zipIdx i).flatMap fun x => leavesAt (path.index x.2) x.1 := by
  induction items generalizing i with
  | nil => rfl
  | cons v items ih => rw [itemLeaves, ih, List.zipIdx_cons, List.flatMap_cons]

theorem memberLeaves_eq (members : Members) :
    memberLeaves path members = members.flatMap fun m => leavesAt (path.key m.1) m.2 := by
  induction members with
  | nil => rfl
  | cons m members ih => rw [memberLeaves, ih, List.flatMap_cons]

/-! ## Parts of a rewritten value -/

theorem getElem?_rewriteItems (items : List Json) (i : Nat) :
    (rewriteItems f path 0 items)[i]? = items[i]?.map (rewriteAt f (path.index i)) := by
  rw [rewriteItems_eq, List.getElem?_map, List.getElem?_zipIdx, Option.map_map]
  simp only [Nat.zero_add]
  rfl

theorem get?_rewriteMembers (members : Members) (key : String) :
    Members.get? (rewriteMembers f path members) key =
      (members.get? key).map (rewriteAt f (path.key key)) := by
  induction members with
  | nil => rfl
  | cons m members ih =>
    obtain ⟨k, v⟩ := m
    rw [rewriteMembers, Members.get?_cons, Members.get?_cons, ih]
    by_cases h : key = k
    · rw [if_pos h, if_pos h, h, Option.map_some]
    · rw [if_neg h, if_neg h]

theorem steps_key (path : Path) (name : String) (rest : List Step) :
    (path.key name).steps ++ rest = path.steps ++ .key name :: rest := by
  simp [Path.key, Path.push]

theorem steps_index (path : Path) (i : Nat) (rest : List Step) :
    (path.index i).steps ++ rest = path.steps ++ .index i :: rest := by
  simp [Path.index, Path.push]

theorem finalKey?_key (path : Path) (key : String) : (path.key key).finalKey? = some key := by
  simp [Path.finalKey?, Path.key, Path.push]

theorem finalKey?_index (path : Path) (i : Nat) : (path.index i).finalKey? = none := by
  simp [Path.finalKey?, Path.index, Path.push]

theorem step?_rewriteAt (step : Step) :
    (rewriteAt f path v).step? step = (v.step? step).map (rewriteAt f (path.push step)) := by
  cases step with
  | key name =>
    cases v <;> try rfl
    exact get?_rewriteMembers _ _
  | index i =>
    cases v <;> try rfl
    exact getElem?_rewriteItems _ _

theorem follow?_append (before after : List Step) :
    v.follow? (before ++ after) = (v.follow? before).bind (·.follow? after) := by
  induction before generalizing v with
  | nil => rfl
  | cons step rest ih =>
    rw [List.cons_append, follow?, follow?, Option.bind_assoc]
    exact congrArg (v.step? step).bind (funext fun child => ih)

theorem follow?_rewriteAt (steps : List Step) :
    (rewriteAt f path v).follow? steps =
      (v.follow? steps).map (rewriteAt f ⟨path.steps ++ steps⟩) := by
  induction steps generalizing v path with
  | nil => rw [List.append_nil]; rfl
  | cons step rest ih =>
    rw [follow?, follow?, step?_rewriteAt]
    cases v.step? step with
    | none => rfl
    | some child =>
      show (rewriteAt f (path.push step) child).follow? rest = (child.follow? rest).map _
      rw [ih, Path.push, List.append_assoc, List.singleton_append]

/-! ## Laws of rewriting -/

theorem rewriteAt_congr
    (h : ∀ steps t, f ⟨path.steps ++ steps⟩ t = g ⟨path.steps ++ steps⟩ t) :
    rewriteAt f path v = rewriteAt g path v := by
  induction v using induction generalizing path with
  | null | bool | number => rfl
  | string s =>
    rw [rewriteAt, rewriteAt]
    have := h [] s
    rw [List.append_nil] at this
    rw [this]
  | array items ih =>
    rw [rewriteAt, rewriteAt, rewriteItems_eq, rewriteItems_eq]
    refine congrArg array (List.map_congr_left fun x hx => ih _ (List.fst_mem_of_mem_zipIdx hx) ?_)
    intro steps t
    rw [steps_index]
    exact h _ t
  | object members ih =>
    rw [rewriteAt, rewriteAt, rewriteMembers_eq, rewriteMembers_eq]
    refine congrArg object (List.map_congr_left fun m hm => Prod.ext rfl (ih m hm ?_))
    intro steps t
    rw [steps_key]
    exact h _ t

theorem rewriteAt_id : rewriteAt (fun _ t => t) path v = v := by
  induction v using induction generalizing path with
  | null | bool | number | string => rfl
  | array items ih =>
    rw [rewriteAt, rewriteItems_eq]
    have hmap : (items.zipIdx.map fun x => rewriteAt (fun _ t => t) (path.index x.2) x.1) =
        items.zipIdx.map (·.1) :=
      List.map_congr_left fun x hx => ih _ (List.fst_mem_of_mem_zipIdx hx)
    rw [hmap, List.zipIdx_map_fst]
  | object members ih =>
    rw [rewriteAt, rewriteMembers_eq]
    have hmap : (members.map fun m => (m.1, rewriteAt (fun _ t => t) (path.key m.1) m.2)) =
        members.map id :=
      List.map_congr_left fun m hm => Prod.ext rfl (ih m hm)
    rw [hmap, List.map_id]

/-- Rewriting that keeps every string under a path keeps the value there. -/
theorem rewriteAt_eq_self (h : ∀ steps t, f ⟨path.steps ++ steps⟩ t = t) :
    rewriteAt f path v = v := by
  rw [rewriteAt_congr (g := fun _ t => t) h, rewriteAt_id]

theorem rewriteAt_rewriteAt :
    rewriteAt g path (rewriteAt f path v) = rewriteAt (fun p t => g p (f p t)) path v := by
  induction v using induction generalizing path with
  | null | bool | number | string => rfl
  | array items ih =>
    rw [rewriteAt, rewriteAt, rewriteAt]
    refine congrArg array (List.ext_getElem? fun i => ?_)
    rw [getElem?_rewriteItems, getElem?_rewriteItems, getElem?_rewriteItems, Option.map_map]
    exact Option.map_congr fun v hv => ih v (List.mem_of_getElem? hv)
  | object members ih =>
    rw [rewriteAt, rewriteAt, rewriteAt, rewriteMembers_eq, rewriteMembers_eq, rewriteMembers_eq,
      List.map_map]
    exact congrArg object (List.map_congr_left fun m hm => Prod.ext rfl (ih m hm))

theorem WellFormed.step? {w : Json} {step : Step} (h : WellFormed v) (hs : v.step? step = some w) :
    WellFormed w := by
  cases step with
  | key name =>
    obtain ⟨members, hm, hg⟩ := Option.bind_eq_some_iff.1 hs
    cases v <;> cases hm
    exact h.members _ (Members.mem_of_get? hg)
  | index i =>
    obtain ⟨items, hi, hg⟩ := Option.bind_eq_some_iff.1 hs
    cases v <;> cases hi
    exact h.items _ (List.mem_of_getElem? hg)

theorem WellFormed.follow? {w : Json} {steps : List Step} (h : WellFormed v)
    (hf : v.follow? steps = some w) : WellFormed w := by
  induction steps generalizing v with
  | nil =>
    cases hf
    exact h
  | cons step rest ih =>
    obtain ⟨child, hc, hf⟩ := Option.bind_eq_some_iff.1 hf
    exact ih (h.step? hc) hf

theorem WellFormed.rewriteAt (h : WellFormed v) : WellFormed (v.rewriteAt f path) := by
  induction h generalizing path with
  | null => exact .null
  | bool => exact .bool
  | number => exact .number
  | string => exact .string
  | @array items _ ih =>
    refine .array fun w hw => ?_
    rw [rewriteItems_eq] at hw
    obtain ⟨x, hx, rfl⟩ := List.mem_map.1 hw
    exact ih _ (List.fst_mem_of_mem_zipIdx hx)
  | @object members hk _ ih =>
    rw [Json.rewriteAt, rewriteMembers_eq]
    refine .object ?_ fun m hm => ?_
    · rw [List.map_map]
      exact hk
    · obtain ⟨m', hm', rfl⟩ := List.mem_map.1 hm
      exact ih m' hm'

/-! ## The strings of a value -/

theorem itemLeaves_rewriteItems {items : List Json} {i : Nat}
    (h : ∀ v ∈ items, ∀ path, leavesAt path (rewriteAt f path v) =
      (leavesAt path v).map fun leaf => ⟨leaf.path, f leaf.path leaf.text⟩) :
    itemLeaves path i (rewriteItems f path i items) =
      (itemLeaves path i items).map fun leaf => ⟨leaf.path, f leaf.path leaf.text⟩ := by
  induction items generalizing i with
  | nil => rfl
  | cons v items ih =>
    obtain ⟨hv, hrest⟩ := List.forall_mem_cons.1 h
    rw [rewriteItems, itemLeaves, itemLeaves, List.map_append, hv, ih hrest]

theorem leavesAt_rewriteAt :
    leavesAt path (rewriteAt f path v) =
      (leavesAt path v).map fun leaf => ⟨leaf.path, f leaf.path leaf.text⟩ := by
  induction v using induction generalizing path with
  | null | bool | number | string => rfl
  | array items ih =>
    rw [rewriteAt, leavesAt, leavesAt]
    exact itemLeaves_rewriteItems fun v hv path => ih v hv
  | object members ih =>
    rw [rewriteAt, leavesAt, leavesAt, memberLeaves_eq, memberLeaves_eq, rewriteMembers_eq,
      List.flatMap_map, List.map_flatMap]
    rw [List.flatMap_def, List.flatMap_def]
    exact congrArg List.flatten (List.map_congr_left fun m hm => ih m hm)

/-- The strings of a value do not depend on where it stands. -/
theorem texts_leavesAt (path' : Path) :
    (leavesAt path v).map (·.text) = (leavesAt path' v).map (·.text) := by
  induction v using induction generalizing path path' with
  | null | bool | number | string => rfl
  | array items ih =>
    rw [leavesAt, leavesAt, itemLeaves_eq, itemLeaves_eq, List.map_flatMap, List.map_flatMap,
      List.flatMap_def, List.flatMap_def]
    exact congrArg List.flatten (List.map_congr_left fun x hx =>
      ih x.1 (List.fst_mem_of_mem_zipIdx hx) _)
  | object members ih =>
    rw [leavesAt, leavesAt, memberLeaves_eq, memberLeaves_eq, List.map_flatMap, List.map_flatMap,
      List.flatMap_def, List.flatMap_def]
    exact congrArg List.flatten (List.map_congr_left fun m hm => ih m hm _)

/-- The keys under which the strings of a value stand depend on the last step to the value alone. -/
theorem keys_leavesAt {path' : Path} (h : path.finalKey? = path'.finalKey?) :
    (leavesAt path v).map (fun leaf => (leaf.path.finalKey?, leaf.text)) =
      (leavesAt path' v).map fun leaf => (leaf.path.finalKey?, leaf.text) := by
  induction v using induction generalizing path path' with
  | null | bool | number => rfl
  | string s => rw [leavesAt, leavesAt, List.map_singleton, List.map_singleton, h]
  | array items ih =>
    rw [leavesAt, leavesAt, itemLeaves_eq, itemLeaves_eq, List.map_flatMap, List.map_flatMap,
      List.flatMap_def, List.flatMap_def]
    exact congrArg List.flatten (List.map_congr_left fun x hx =>
      ih x.1 (List.fst_mem_of_mem_zipIdx hx) (by rw [finalKey?_index, finalKey?_index]))
  | object members ih =>
    rw [leavesAt, leavesAt, memberLeaves_eq, memberLeaves_eq, List.map_flatMap, List.map_flatMap,
      List.flatMap_def, List.flatMap_def]
    exact congrArg List.flatten (List.map_congr_left fun m hm =>
      ih m hm (by rw [finalKey?_key, finalKey?_key]))

/-- Rewriting depends only on what becomes of the strings that are there. -/
theorem rewriteAt_congr_leaves
    (h : ∀ leaf ∈ leavesAt path v, f leaf.path leaf.text = g leaf.path leaf.text) :
    rewriteAt f path v = rewriteAt g path v := by
  induction v using induction generalizing path with
  | null | bool | number => rfl
  | string s => exact congrArg string (h ⟨path, s⟩ (List.mem_singleton_self _))
  | array items ih =>
    rw [rewriteAt, rewriteAt, rewriteItems_eq, rewriteItems_eq]
    refine congrArg array (List.map_congr_left fun x hx =>
      ih x.1 (List.fst_mem_of_mem_zipIdx hx) fun leaf hl => h leaf ?_)
    rw [leavesAt, itemLeaves_eq]
    exact List.mem_flatMap.2 ⟨x, hx, hl⟩
  | object members ih =>
    rw [rewriteAt, rewriteAt, rewriteMembers_eq, rewriteMembers_eq]
    refine congrArg object (List.map_congr_left fun m hm =>
      Prod.ext rfl (ih m hm fun leaf hl => h leaf ?_))
    rw [leavesAt, memberLeaves_eq]
    exact List.mem_flatMap.2 ⟨m, hm, hl⟩

/-- The strings of a value stand under the path of the value. -/
theorem prefix_of_mem_leavesAt {leaf : Leaf} (h : leaf ∈ leavesAt path v) :
    path.steps <+: leaf.path.steps := by
  induction v using induction generalizing path with
  | null | bool | number => cases h
  | string s =>
    rw [leavesAt, List.mem_singleton] at h
    subst h
    exact List.prefix_rfl
  | array items ih =>
    rw [leavesAt, itemLeaves_eq, List.mem_flatMap] at h
    obtain ⟨⟨w, i⟩, hx, hl⟩ := h
    exact (List.prefix_append _ _).trans (ih w (List.fst_mem_of_mem_zipIdx hx) hl)
  | object members ih =>
    rw [leavesAt, memberLeaves_eq, List.mem_flatMap] at h
    obtain ⟨m, hm, hl⟩ := h
    exact (List.prefix_append _ _).trans (ih m hm hl)

/-- A string of a value that is no object stands at its path or under an index. -/
theorem index_of_mem_leavesAt {leaf : Leaf} (h : leaf ∈ leavesAt path v) (hv : v.members? = none) :
    leaf.path = path ∨ ∃ i rest, leaf.path.steps = path.steps ++ .index i :: rest := by
  cases v with
  | null | bool | number => cases h
  | string s =>
    rw [leavesAt, List.mem_singleton] at h
    exact .inl (by rw [h])
  | array items =>
    rw [leavesAt, itemLeaves_eq, List.mem_flatMap] at h
    obtain ⟨⟨w, i⟩, -, hl⟩ := h
    obtain ⟨rest, hr⟩ := prefix_of_mem_leavesAt hl
    exact .inr ⟨i, rest, by rw [← hr, steps_index]⟩
  | object members => cases hv

/-- The path of a string of a well-formed value leads to it. -/
theorem follow?_of_mem_leavesAt (hw : WellFormed v) {leaf : Leaf} (h : leaf ∈ leavesAt path v) :
    ∃ steps, leaf.path.steps = path.steps ++ steps ∧
      v.follow? steps = some (.string leaf.text) := by
  induction v using induction generalizing path with
  | null | bool | number => cases h
  | string s =>
    rw [leavesAt, List.mem_singleton] at h
    subst h
    exact ⟨[], (List.append_nil _).symm, rfl⟩
  | array items ih =>
    rw [leavesAt, itemLeaves_eq, List.mem_flatMap] at h
    obtain ⟨⟨w, i⟩, hx, hl⟩ := h
    have hm : w ∈ items := List.fst_mem_of_mem_zipIdx hx
    obtain ⟨steps, hp, hf⟩ := ih w hm (hw.items w hm) hl
    refine ⟨.index i :: steps, by rw [hp, steps_index], ?_⟩
    have hi : items[i]? = some w := List.mk_mem_zipIdx_iff_getElem?.1 hx
    show (items[i]?).bind _ = _
    rw [hi]
    exact hf
  | object members ih =>
    rw [leavesAt, memberLeaves_eq, List.mem_flatMap] at h
    obtain ⟨⟨name, w⟩, hm, hl⟩ := h
    obtain ⟨steps, hp, hf⟩ := ih _ hm (hw.members _ hm) hl
    refine ⟨.key name :: steps, by rw [hp, steps_key], ?_⟩
    show (Members.get? members name).bind _ = _
    rw [(Members.mem_iff_get? hw.keys).1 hm]
    exact hf

/-! ## Replacing one string -/

theorem put_eq_rewriteMembers {members : Members} (hk : (members.map (·.1)).Nodup) {name : String}
    {child : Json} (hc : members.get? name = some child)
    (h : ∀ m ∈ members, m.1 ≠ name → rewriteAt f (path.key m.1) m.2 = m.2) :
    members.put name (rewriteAt f (path.key name) child) = rewriteMembers f path members := by
  induction members with
  | nil => cases hc
  | cons m rest ih =>
    obtain ⟨k, v⟩ := m
    obtain ⟨hnot, hk⟩ := List.nodup_cons.1 hk
    obtain ⟨hm, hrest⟩ := List.forall_mem_cons.1 h
    rw [Members.put, rewriteMembers]
    rw [Members.get?_cons] at hc
    by_cases he : name = k
    · subst he
      rw [if_pos rfl] at hc
      cases hc
      have hkeep : rewriteMembers f path rest = rest := by
        rw [rewriteMembers_eq]
        conv => rhs; rw [← List.map_id rest]
        refine List.map_congr_left fun m hm => Prod.ext rfl (hrest m hm ?_)
        rintro he
        exact hnot (List.mem_map.2 ⟨m, hm, he⟩)
      rw [if_pos rfl, hkeep]
    · rw [if_neg he] at hc
      rw [if_neg (Ne.symm he), hm (Ne.symm he), ih hk hc hrest]

theorem set_eq_rewriteItems {items : List Json} {i : Nat} {child : Json}
    (hc : items[i]? = some child)
    (h : ∀ j v, items[j]? = some v → j ≠ i → rewriteAt f (path.index j) v = v) :
    items.set i (rewriteAt f (path.index i) child) = rewriteItems f path 0 items := by
  refine List.ext_getElem? fun j => ?_
  rw [getElem?_rewriteItems, List.getElem?_set]
  by_cases hj : i = j
  · subst hj
    obtain ⟨hlt, -⟩ := List.getElem?_eq_some_iff.1 hc
    rw [if_pos rfl, if_pos hlt, hc, Option.map_some]
  · rw [if_neg hj]
    cases hv : items[j]? with
    | none => rfl
    | some v => rw [Option.map_some, h j v hv (Ne.symm hj)]

/-- In a well-formed value, replacing one string is rewriting with `overwrite`. -/
theorem replace?_string (hw : WellFormed v) {steps : List Step} {s : String}
    (h : v.follow? steps = some (.string s)) (text : String) :
    v.replace? (.string text) steps =
      some (rewriteAt (overwrite ⟨path.steps ++ steps⟩ text) path v) := by
  induction steps generalizing v path with
  | nil =>
    rw [follow?, Option.some.injEq] at h
    subst h
    simp [replace?, rewriteAt, overwrite]
  | cons step rest ih =>
    obtain ⟨child, hc, hf⟩ := Option.bind_eq_some_iff.1 h
    cases step with
    | key name =>
      cases v with
      | object members =>
        replace hc : Members.get? members name = some child := hc
        have hchild : child.replace? (.string text) rest = some (rewriteAt
            (overwrite ⟨path.steps ++ .key name :: rest⟩ text) (path.key name) child) := by
          rw [← steps_key]
          exact ih (hw.members _ (Members.mem_of_get? hc)) hf
        rw [replace?]
        show (Members.get? members name).bind _ = _
        rw [hc]
        show (child.replace? (.string text) rest).bind _ = _
        rw [hchild]
        refine congrArg (fun ms => some (object ms)) (put_eq_rewriteMembers hw.keys hc ?_)
        intro m _ hne
        refine rewriteAt_eq_self fun more t => if_neg fun he => ?_
        rw [steps_key, Path.mk.injEq, List.append_cancel_left_eq] at he
        exact hne (by injection he with he; injection he)
      | _ => cases hc
    | index i =>
      cases v with
      | array items =>
        replace hc : items[i]? = some child := hc
        have hchild : child.replace? (.string text) rest = some
            (rewriteAt (overwrite ⟨path.steps ++ .index i :: rest⟩ text) (path.index i) child) := by
          rw [← steps_index]
          exact ih (hw.items _ (List.mem_of_getElem? hc)) hf
        rw [replace?]
        show (items[i]?).bind _ = _
        rw [hc]
        show (child.replace? (.string text) rest).bind _ = _
        rw [hchild]
        refine congrArg (fun vs => some (array vs)) (set_eq_rewriteItems hc ?_)
        intro j w _ hne
        refine rewriteAt_eq_self fun more t => if_neg fun he => ?_
        rw [steps_index, Path.mk.injEq, List.append_cancel_left_eq] at he
        exact hne (by injection he with he; injection he)
      | _ => cases hc

end VideoScript.Json
