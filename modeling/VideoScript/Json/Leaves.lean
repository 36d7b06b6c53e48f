import VideoScript.Json.Path

/-!
# The strings of a value

`leaves` lists the strings of a value with their paths, in the order in which they are written. The
paths start with a given path, so that a part of a document can be listed under its own address.

`walk` visits the same strings with one path that it steps down and up again as it goes.
-/

set_option autoImplicit false

namespace VideoScript.Json

/-- A string inside a value, with the steps that lead to it. -/
structure Leaf where
  path : Path
  text : String
  deriving DecidableEq, Repr

mutual

/-- The strings of a value, in order; `path` is the path of the value. -/
def leavesAt (path : Path) : Json → List Leaf
  | string s => [⟨path, s⟩]
  | array items => itemLeaves path 0 items
  | object members => memberLeaves path members
  | _ => []

/-- The strings of the items of an array, the first of which has the index `i`. -/
def itemLeaves (path : Path) (i : Nat) : List Json → List Leaf
  | [] => []
  | value :: rest => leavesAt (path.index i) value ++ itemLeaves path (i + 1) rest

/-- The strings of the members of an object. -/
def memberLeaves (path : Path) : List (String × Json) → List Leaf
  | [] => []
  | (key, value) :: rest => leavesAt (path.key key) value ++ memberLeaves path rest

end

/-- The strings of a value with their paths from it. -/
def leaves (value : Json) : List Leaf := leavesAt .root value

/-! ## Walking with one path -/

mutual

/-- Visits the strings of a value in order. The path is the address of the value, before and
after. -/
def walk {σ : Type} (visit : Path → String → σ → σ) : Json → Path × σ → Path × σ
  | string s, (path, state) => (path, visit path s state)
  | array items, here => walkItems visit 0 items here
  | object members, here => walkMembers visit members here
  | _, here => here

/-- Visits the strings of the items of an array, the first of which has the index `i`. -/
def walkItems {σ : Type} (visit : Path → String → σ → σ) (i : Nat) :
    List Json → Path × σ → Path × σ
  | [], here => here
  | value :: rest, (path, state) =>
    let (inner, state) := walk visit value (path.index i, state)
    walkItems visit (i + 1) rest (inner.pop, state)

/-- Visits the strings of the members of an object. -/
def walkMembers {σ : Type} (visit : Path → String → σ → σ) :
    List (String × Json) → Path × σ → Path × σ
  | [], here => here
  | (key, value) :: rest, (path, state) =>
    let (inner, state) := walk visit value (path.key key, state)
    walkMembers visit rest (inner.pop, state)

end

end VideoScript.Json
