import Mathlib.Data.List.Basic
import VideoScript.Proofs.Document

/-!
# Other numbers in a value

`mapNumbers f v` is `v` with every number in it given to `f`; nothing else changes. A document whose
numbers are written and read again may come back with other numbers, but what stands at a path is
what stood there (`get?_mapNumbers`), its strings are the same (`leavesAt_mapNumbers`), and they are
rewritten in the same way (`rewriteAt_mapNumbers`). Rewriting strings leaves the numbers of a value
alone (`numbers_rewriteAt`).
-/

set_option autoImplicit false

namespace VideoScript.Json

mutual

/-- The value with its numbers changed. -/
def mapNumbers (f : Number → Number) : Json → Json
  | number n => number (f n)
  | array items => array (mapItems f items)
  | object members => object (mapMembers f members)
  | null => null
  | bool b => bool b
  | string s => string s

/-- The items of an array with their numbers changed. -/
def mapItems (f : Number → Number) : List Json → List Json
  | [] => []
  | value :: rest => mapNumbers f value :: mapItems f rest

/-- The members of an object with their numbers changed. -/
def mapMembers (f : Number → Number) : List (String × Json) → List (String × Json)
  | [] => []
  | (key, value) :: rest => (key, mapNumbers f value) :: mapMembers f rest

end

mutual

/-- The numbers in a value, in order. -/
def numbers : Json → List Number
  | number n => [n]
  | array items => itemNumbers items
  | object members => memberNumbers members
  | _ => []

/-- The numbers in the items of an array. -/
def itemNumbers : List Json → List Number
  | [] => []
  | value :: rest => numbers value ++ itemNumbers rest

/-- The numbers in the members of an object. -/
def memberNumbers : List (String × Json) → List Number
  | [] => []
  | (_, value) :: rest => numbers value ++ memberNumbers rest

end

variable {f : Number → Number} {g : Path → String → String} {path : Path} {v : Json}

theorem mapItems_eq (items : List Json) : mapItems f items = items.map (mapNumbers f) := by
  induction items with
  | nil => rfl
  | cons v items ih => rw [mapItems, ih, List.map_cons]

theorem mapMembers_eq (members : Members) :
    mapMembers f members = members.map fun m => (m.1, mapNumbers f m.2) := by
  induction members with
  | nil => rfl
  | cons m members ih => rw [mapMembers, ih, List.map_cons]

theorem get?_mapMembers (members : Members) (key : String) :
    Members.get? (mapMembers f members) key = (members.get? key).map (mapNumbers f) := by
  induction members with
  | nil => rfl
  | cons m members ih =>
    obtain ⟨k, v⟩ := m
    rw [mapMembers, Members.get?_cons, Members.get?_cons, ih]
    by_cases h : key = k
    · rw [if_pos h, if_pos h, Option.map_some]
    · rw [if_neg h, if_neg h]

theorem get?_mapNumbers (v : Json) (key : String) :
    (mapNumbers f v).get? key = (v.get? key).map (mapNumbers f) := by
  cases v <;> try rfl
  exact get?_mapMembers _ _

/-- The strings of a value stay. -/
theorem leavesAt_mapNumbers : leavesAt path (mapNumbers f v) = leavesAt path v := by
  induction v using induction generalizing path with
  | null | bool | number | string => rfl
  | array items ih =>
    rw [mapNumbers, leavesAt, leavesAt, itemLeaves_eq, itemLeaves_eq, mapItems_eq, List.zipIdx_map,
      List.flatMap_map]
    exact List.flatMap_congr fun x hx => ih x.1 (List.fst_mem_of_mem_zipIdx hx)
  | object members ih =>
    rw [mapNumbers, leavesAt, leavesAt, memberLeaves_eq, memberLeaves_eq, mapMembers_eq,
      List.flatMap_map]
    exact List.flatMap_congr fun m hm => ih m hm

theorem rewriteAt_mapNumbers :
    rewriteAt g path (mapNumbers f v) = mapNumbers f (rewriteAt g path v) := by
  induction v using induction generalizing path with
  | null | bool | number | string => rfl
  | array items ih =>
    rw [mapNumbers, rewriteAt, rewriteAt, mapNumbers, mapItems_eq, mapItems_eq, rewriteItems_eq,
      rewriteItems_eq, List.zipIdx_map, List.map_map, List.map_map]
    exact congrArg array (List.map_congr_left fun x hx => ih x.1 (List.fst_mem_of_mem_zipIdx hx))
  | object members ih =>
    rw [mapNumbers, rewriteAt, rewriteAt, mapNumbers, mapMembers_eq, mapMembers_eq,
      rewriteMembers_eq, rewriteMembers_eq, List.map_map, List.map_map]
    exact congrArg object (List.map_congr_left fun m hm => Prod.ext rfl (ih m hm))

theorem itemNumbers_eq (items : List Json) : itemNumbers items = items.flatMap numbers := by
  induction items with
  | nil => rfl
  | cons v items ih => rw [itemNumbers, ih, List.flatMap_cons]

theorem memberNumbers_eq (members : Members) :
    memberNumbers members = members.flatMap fun m => numbers m.2 := by
  induction members with
  | nil => rfl
  | cons m members ih => rw [memberNumbers, ih, List.flatMap_cons]

theorem numbers_rewriteAt : numbers (rewriteAt g path v) = numbers v := by
  induction v using induction generalizing path with
  | null | bool | number | string => rfl
  | array items ih =>
    rw [rewriteAt, numbers, numbers, itemNumbers_eq, itemNumbers_eq, rewriteItems_eq,
      List.flatMap_map]
    conv_rhs => rw [← List.zipIdx_map_fst 0 items, List.flatMap_map]
    exact List.flatMap_congr fun x hx => ih x.1 (List.fst_mem_of_mem_zipIdx hx)
  | object members ih =>
    rw [rewriteAt, numbers, numbers, memberNumbers_eq, memberNumbers_eq, rewriteMembers_eq,
      List.flatMap_map]
    exact List.flatMap_congr fun m hm => ih m hm

theorem mapNumbers_id : mapNumbers id v = v := by
  induction v using induction with
  | null | bool | number | string => rfl
  | array items ih =>
    rw [mapNumbers, mapItems_eq, List.map_congr_left fun v hv => ih v hv, List.map_id']
  | object members ih =>
    have hmap : (members.map fun m => (m.1, mapNumbers id m.2)) = members.map id :=
      List.map_congr_left fun m hm => Prod.ext rfl (ih m hm)
    rw [mapNumbers, mapMembers_eq, hmap, List.map_id]

end VideoScript.Json
