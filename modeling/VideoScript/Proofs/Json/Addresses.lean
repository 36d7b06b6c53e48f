import VideoScript.Proofs.Json.Pointer
import VideoScript.Proofs.Json.Walk

/-!
# The paths of a walk are addresses

A walk from any path visits the strings of a value under that path (`leavesAt_eq`). The strings
come in the order of the document: `Earlier v p q` says that one path leads to an earlier part of `v`
than another, because an earlier member or item holds it (`pairwise_earlier`).

The pointer of a path is its address. Where two paths lead somewhere they have different pointers
(`path_eq_of_pointer_eq`). `ChangedAt` says that two values differ in one part and in nothing else,
and replacing a part does just that (`exists_replace?`), so writing along a pointer does too.
-/

set_option autoImplicit false

namespace VideoScript.Json

variable {v old part : Json} {path : Path}

/-! ## Strings under a path -/

/-- A string of a value, with its path from where the value stands. -/
def Leaf.under (path : Path) (leaf : Leaf) : Leaf := ⟨⟨path.steps ++ leaf.path.steps⟩, leaf.text⟩

theorem index_append (path here : Path) (i : Nat) :
    (⟨path.steps ++ here.steps⟩ : Path).index i = ⟨path.steps ++ (here.index i).steps⟩ := by
  simp [Path.index, Path.push]

theorem key_append (path here : Path) (name : String) :
    (⟨path.steps ++ here.steps⟩ : Path).key name = ⟨path.steps ++ (here.key name).steps⟩ := by
  simp [Path.key, Path.push]

theorem leavesAt_append (path here : Path) :
    leavesAt ⟨path.steps ++ here.steps⟩ v = (leavesAt here v).map (·.under path) := by
  induction v using induction generalizing here with
  | null | bool | number | string => rfl
  | array items ih =>
    rw [leavesAt, leavesAt, itemLeaves_eq, itemLeaves_eq, List.map_flatMap]
    refine List.flatMap_congr fun x hx => ?_
    rw [index_append]
    exact ih x.1 (List.fst_mem_of_mem_zipIdx hx) (here.index x.2)
  | object members ih =>
    rw [leavesAt, leavesAt, memberLeaves_eq, memberLeaves_eq, List.map_flatMap]
    refine List.flatMap_congr fun m hm => ?_
    rw [key_append]
    exact ih m hm (here.key m.1)

/-- The strings of a value have their paths from it after the path of the value. -/
theorem leavesAt_eq (path : Path) (v : Json) : leavesAt path v = (leaves v).map (·.under path) := by
  have h := leavesAt_append (v := v) path .root
  rwa [show (⟨path.steps ++ Path.root.steps⟩ : Path) = path by simp [Path.root]] at h

/-! ## The order of the document -/

/-- A path leads to an earlier part of a value than another: where the two part, the first goes to
an earlier member or item. -/
inductive Earlier : Json → List Step → List Step → Prop
  | members {members : Members} {name other : String} {p q : List Step}
      (h : List.Sublist [name, other] (members.map (·.1))) :
      Earlier (.object members) (.key name :: p) (.key other :: q)
  | member {members : Members} {name : String} {child : Json} {p q : List Step}
      (hm : (name, child) ∈ members) (h : Earlier child p q) :
      Earlier (.object members) (.key name :: p) (.key name :: q)
  | items {items : List Json} {i j : Nat} {p q : List Step} (h : i < j) :
      Earlier (.array items) (.index i :: p) (.index j :: q)
  | item {items : List Json} {i : Nat} {child : Json} {p q : List Step}
      (hi : items[i]? = some child) (h : Earlier child p q) :
      Earlier (.array items) (.index i :: p) (.index i :: q)

theorem leaves_array (items : List Json) : leaves (.array items) =
    items.zipIdx.flatMap fun x => (leaves x.1).map (·.under (Path.root.index x.2)) := by
  rw [leaves, leavesAt, itemLeaves_eq]
  exact List.flatMap_congr fun x _ => leavesAt_eq _ _

theorem leaves_object (members : Members) : leaves (.object members) =
    members.flatMap fun m => (leaves m.2).map (·.under (Path.root.key m.1)) := by
  rw [leaves, leavesAt, memberLeaves_eq]
  exact List.flatMap_congr fun m _ => leavesAt_eq _ _

/-- The strings of a value are listed in the order of the document. -/
theorem pairwise_earlier (v : Json) :
    (leaves v).Pairwise fun a b => Earlier v a.path.steps b.path.steps := by
  induction v using induction with
  | null | bool | number => exact .nil
  | string s => exact List.pairwise_singleton _ _
  | array items ih =>
    rw [leaves_array, List.pairwise_flatMap]
    constructor
    · intro x hx
      have hi : items[x.2]? = some x.1 := List.mk_mem_zipIdx_iff_getElem?.1 hx
      rw [List.pairwise_map]
      exact (ih x.1 (List.fst_mem_of_mem_zipIdx hx)).imp fun h => .item hi h
    · have hindices : (items.zipIdx.map (·.2)).Pairwise (· < ·) := by
        rw [List.zipIdx_map_snd]
        exact List.pairwise_lt_range'
      refine (List.pairwise_map.1 hindices).imp fun hlt a ha b hb => ?_
      obtain ⟨a, -, rfl⟩ := List.mem_map.1 ha
      obtain ⟨b, -, rfl⟩ := List.mem_map.1 hb
      exact .items hlt
  | object members ih =>
    rw [leaves_object, List.pairwise_flatMap]
    constructor
    · intro m hm
      rw [List.pairwise_map]
      exact (ih m hm).imp fun h => .member hm h
    · refine List.pairwise_iff_forall_sublist.2 fun {m m'} hsub a ha b hb => ?_
      obtain ⟨a, -, rfl⟩ := List.mem_map.1 ha
      obtain ⟨b, -, rfl⟩ := List.mem_map.1 hb
      exact .members (hsub.map Prod.fst)

/-! ## Pointers as addresses -/

/-- Two paths that lead somewhere have different pointers. -/
theorem path_eq_of_pointer_eq {p q : Path} {part' : Json} (hp : PartAt v p part)
    (hq : PartAt v q part') (h : p.pointer = q.pointer) : p = q := by
  have hparts : p.steps.map stepPart = q.steps.map stepPart := by
    have hread := pointerParts?_pointer p
    rw [h, pointerParts?_pointer] at hread
    exact (Option.some.inj hread).symm
  have hsteps := pointerSteps?_parts hp
  rw [hparts, pointerSteps?_parts hq] at hsteps
  exact congrArg Path.mk (Option.some.inj hsteps).symm

theorem nodup_pointers (hw : WellFormed v) : ((leaves v).map (·.path.pointer)).Nodup := by
  have hpaths : ((leaves v).map (·.path)).Nodup := nodup_paths hw
  rw [List.Nodup, List.pairwise_map] at hpaths ⊢
  refine hpaths.imp_of_mem fun ha hb hne he => hne ?_
  exact path_eq_of_pointer_eq (.of_leaf hw ha) (.of_leaf hw hb) he

/-! ## Writing one part -/

/-- Two values have `old` and `part` at the end of some steps and agree in everything else: in all
other members and items on the way there, and in their order. -/
inductive ChangedAt (old part : Json) : List Step → Json → Json → Prop
  | here : ChangedAt old part [] old part
  | member {before after : Members} {name : String} {child changed : Json} {steps : List Step}
      (h : ChangedAt old part steps child changed) :
      ChangedAt old part (.key name :: steps) (.object (before ++ (name, child) :: after))
        (.object (before ++ (name, changed) :: after))
  | item {before after : List Json} {child changed : Json} {steps : List Step}
      (h : ChangedAt old part steps child changed) :
      ChangedAt old part (.index before.length :: steps) (.array (before ++ child :: after))
        (.array (before ++ changed :: after))

/-- Setting a member that is there changes it in its place. -/
theorem exists_put {members : Members} {name : String} {child : Json}
    (h : members.get? name = some child) : ∃ before after,
      members = before ++ (name, child) :: after ∧
      ∀ value, members.put name value = before ++ (name, value) :: after := by
  induction members with
  | nil => cases h
  | cons m rest ih =>
    obtain ⟨key, value⟩ := m
    rw [Members.get?_cons] at h
    by_cases hk : name = key
    · subst hk
      rw [if_pos rfl] at h
      cases h
      exact ⟨[], rest, rfl, fun value => by rw [Members.put, if_pos rfl]; rfl⟩
    · rw [if_neg hk] at h
      obtain ⟨before, after, hrest, hput⟩ := ih h
      refine ⟨(key, value) :: before, after, by rw [hrest]; rfl, fun value => ?_⟩
      rw [Members.put, if_neg (Ne.symm hk), hput]
      rfl

/-- Replacing a part that is there changes it and nothing else. -/
theorem exists_replace? {steps : List Step} (h : v.follow? steps = some old) (part : Json) :
    ∃ changed, v.replace? part steps = some changed ∧ ChangedAt old part steps v changed := by
  induction steps generalizing v with
  | nil =>
    cases h
    exact ⟨part, rfl, .here⟩
  | cons step rest ih =>
    obtain ⟨child, hc, hf⟩ := Option.bind_eq_some_iff.1 h
    obtain ⟨changed, hr, hchanged⟩ := ih hf
    cases step with
    | key name =>
      obtain ⟨members, hm, hg⟩ := Option.bind_eq_some_iff.1 hc
      cases v <;> cases hm
      obtain ⟨before, after, hmembers, hput⟩ := exists_put hg
      refine ⟨.object (members.put name changed), ?_, ?_⟩
      · simp [replace?, members?, hg, hr]
      · rw [hput, hmembers]
        exact .member hchanged
    | index i =>
      obtain ⟨items, hi, hg⟩ := Option.bind_eq_some_iff.1 hc
      cases v <;> cases hi
      obtain ⟨hlt, rfl⟩ := List.getElem?_eq_some_iff.1 hg
      obtain ⟨before, after, hitems, rfl, hset⟩ := @List.exists_of_set _ _ changed _ hlt
      refine ⟨.array (items.set before.length changed), ?_, ?_⟩
      · simp [replace?, items?, hg, hr]
      · rw [hset]
        conv => arg 4; rw [hitems]
        exact .item hchanged

/-! ## The whole -/

/-- **The paths of a walk are addresses.** A walk through a value restores the path that it starts
with and visits the strings of the value under that path: all of them, in the order of the document,
each once. Seen from the value, the pointers of the strings differ from each other; each of them
leads to its string, and writing along it changes this string and nothing else. -/
theorem walk_gives_addresses (v : Json) (hv : WellFormed v) :
    (∀ {σ : Type} (visit : Path → String → σ → σ) (path : Path) (state : σ),
      walk visit v (path, state) =
        (path, visitAll visit ((leaves v).map (·.under path)) state)) ∧
    (∀ leaf, leaf ∈ leaves v ↔ PartAt v leaf.path (.string leaf.text)) ∧
    (leaves v).Pairwise (fun a b => Earlier v a.path.steps b.path.steps) ∧
    ((leaves v).map (·.path.pointer)).Nodup ∧
    ∀ leaf ∈ leaves v, v.resolve? leaf.path.pointer = some (.string leaf.text) ∧
      ∀ part, ∃ changed, v.writeAt? leaf.path.pointer part = some changed ∧
        ChangedAt (.string leaf.text) part leaf.path.steps v changed := by
  refine ⟨fun visit path state => ?_, fun leaf => mem_leaves_iff hv, pairwise_earlier v,
    nodup_pointers hv, fun leaf hl => ?_⟩
  · rw [walk_eq, leavesAt_eq]
  · have hpart : PartAt v leaf.path (.string leaf.text) := .of_leaf hv hl
    refine ⟨resolve?_pointer hpart, fun part => ?_⟩
    rw [writeAt?_pointer hpart]
    exact exists_replace? hpart part

/-- Strings under keys that are empty, look like indices or have characters that pointers escape. -/
def awkwardKeys : Json :=
  .object [("", .string "a"),
    ("a/b", .object [("~1", .string "b"), ("0", .array [.null, .string "c"])]),
    ("[0]", .string "d")]

theorem walk_gives_addresses_awkward :
    WellFormed awkwardKeys ∧
      (leaves awkwardKeys).map (·.path.pointer) = ["/", "/a~1b/~01", "/a~1b/0/1", "/[0]"] ∧
      awkwardKeys.resolve? "/a~1b/~01" = some (.string "b") ∧
      ∃ changed, awkwardKeys.writeAt? "/a~1b/0/1" (.string "e") = some changed ∧
        ChangedAt (.string "c") (.string "e") [.key "a/b", .key "0", .index 1] awkwardKeys
          changed := by
  have hv : WellFormed awkwardKeys := by decide +kernel
  have hpointers : (leaves awkwardKeys).map (·.path.pointer) =
      ["/", "/a~1b/~01", "/a~1b/0/1", "/[0]"] := by decide +kernel
  obtain ⟨-, -, -, -, h⟩ := walk_gives_addresses awkwardKeys hv
  have htilde := h ⟨⟨[.key "a/b", .key "~1"]⟩, "b"⟩ (by decide +kernel)
  have hitem := h ⟨⟨[.key "a/b", .key "0", .index 1]⟩, "c"⟩ (by decide +kernel)
  exact ⟨hv, hpointers, htilde.1, hitem.2 (.string "e")⟩

end VideoScript.Json
