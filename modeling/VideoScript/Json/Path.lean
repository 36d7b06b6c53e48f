import VideoScript.Json.Basic
import VideoScript.Text.Ascii
import VideoScript.Text.Lines

/-!
# Paths into a JSON value

A path is the list of steps from a value down to a part of it: keys into objects and indices into
arrays. It is shown to readers as `a.b[0].c`, and written as a JSON pointer in which a key's `~`
and `/` are escaped. Paths are ordered step by step, a key before an index.

`follow?` and `replace?` go along a path. `resolve?` and `writeAt?` go along a pointer, where a part
of the pointer is taken as a key in an object and as an index in an array.
-/

set_option autoImplicit false

namespace VideoScript

/-- A step from a value to a part of it. -/
inductive Json.Step where
  | key (name : String)
  | index (i : Nat)
  deriving DecidableEq, Repr

/-- The steps from a value to a part of it. -/
structure Json.Path where
  steps : List Json.Step
  deriving DecidableEq, Repr

namespace Json.Path

open Text

/-- The path of the value itself. -/
def root : Path := ⟨[]⟩

/-- The path with one more step. -/
def push (path : Path) (step : Step) : Path := ⟨path.steps ++ [step]⟩

/-- The path to a member. -/
def key (path : Path) (name : String) : Path := path.push (.key name)

/-- The path to an item. -/
def index (path : Path) (i : Nat) : Path := path.push (.index i)

/-- The path without its last step. -/
def pop (path : Path) : Path := ⟨path.steps.dropLast⟩

/-- The key of the last step, when that is a key. -/
def finalKey? (path : Path) : Option String :=
  match path.steps.getLast? with
  | some (.key name) => some name
  | _ => none

/-- A step as it is shown after other steps. -/
def shownStep : Step → String
  | .key name => "." ++ name
  | .index i => "[" ++ String.ofList (digitsOfNatural i) ++ "]"

/-- The path as it is shown to readers. -/
def shown (path : Path) : String :=
  match path.steps with
  | [] => "$"
  | .key name :: rest => name ++ String.join (rest.map shownStep)
  | steps => String.join (steps.map shownStep)

/-- A character of a key as it stands in a pointer. -/
def pointerChar (c : Char) : List Char :=
  if c = '~' then ['~', '0'] else if c = '/' then ['~', '1'] else [c]

/-- A step as it stands in a pointer, without the slash before it. -/
def pointerStep : Step → List Char
  | .key name => name.toList.flatMap pointerChar
  | .index i => digitsOfNatural i

/-- The JSON pointer of a path. -/
def pointer (path : Path) : String :=
  .ofList (path.steps.flatMap fun step => '/' :: pointerStep step)

/-- The order of steps: keys by their characters, then indices by size. -/
def stepBefore : Step → Step → Bool
  | .key a, .key b => a < b
  | .key _, .index _ => true
  | .index _, .key _ => false
  | .index i, .index j => i < j

/-- The order of paths, step by step; a path comes before its extensions. -/
def before (a b : Path) : Bool := go a.steps b.steps
where
  /-- The order of lists of steps. -/
  go : List Step → List Step → Bool
    | [], [] => false
    | [], _ :: _ => true
    | _ :: _, [] => false
    | s :: ss, t :: ts => if s = t then go ss ts else stepBefore s t

end Json.Path

namespace Json

open Text

/-! ## Along a path -/

/-- The part that a step leads to. -/
def step? (value : Json) : Step → Option Json
  | .key name => value.get? name
  | .index i => value.items?.bind (·[i]?)

/-- The part at the end of a path. -/
def follow? (value : Json) : List Step → Option Json
  | [] => some value
  | step :: rest => (value.step? step).bind (·.follow? rest)

/-- The value with the part at the end of a path replaced. -/
def replace? (value : Json) (part : Json) : List Step → Option Json
  | [] => some part
  | .key name :: rest => do
    let members ← value.members?
    let child ← members.get? name
    let child ← child.replace? part rest
    return object (members.put name child)
  | .index i :: rest => do
    let items ← value.items?
    let child ← items[i]?
    let child ← child.replace? part rest
    return array (items.set i child)

/-! ## Along a pointer -/

/-- A part of a pointer without its escapes: `~1` is a slash, and then `~0` a tilde. -/
def unescapePart (part : List Char) : List Char := tildes (slashes part)
where
  /-- Writes a slash for each `~1`. -/
  slashes : List Char → List Char
    | '~' :: '1' :: rest => '/' :: slashes rest
    | c :: rest => c :: slashes rest
    | [] => []
  /-- Writes a tilde for each `~0`. -/
  tildes : List Char → List Char
    | '~' :: '0' :: rest => '~' :: tildes rest
    | c :: rest => c :: tildes rest
    | [] => []

/-- The parts of a pointer, which is empty or starts with a slash. -/
def pointerParts? (pointer : String) : Option (List String) :=
  match pointer.toList with
  | [] => some []
  | '/' :: rest => some ((splitAt '/' rest).map fun part => .ofList (unescapePart part))
  | _ => none

/-- The index that a part of a pointer writes: digits without a sign or a needless zero. There is
no greatest index; one past the end of an array leads nowhere. -/
def partIndex? (part : String) : Option Nat :=
  match part.toList with
  | '0' :: _ :: _ => none
  | digits =>
    if digits.isEmpty || !digits.all isDigit then none else some (naturalOfDigits digits)

/-- The step that a part of a pointer takes from a value. -/
def partStep? (value : Json) (part : String) : Option Step :=
  match value with
  | object _ => some (.key part)
  | array _ => (partIndex? part).map .index
  | _ => none

/-- The steps that the parts of a pointer take from a value, which must all lead somewhere. -/
def pointerSteps? (value : Json) : List String → Option (List Step)
  | [] => some []
  | part :: rest => do
    let step ← value.partStep? part
    let child ← value.step? step
    let steps ← child.pointerSteps? rest
    return step :: steps

/-- The part that a pointer leads to. -/
def resolve? (value : Json) (pointer : String) : Option Json := do
  let steps ← value.pointerSteps? (← pointerParts? pointer)
  value.follow? steps

/-- The value with the part that a pointer leads to replaced. -/
def writeAt? (value : Json) (pointer : String) (part : Json) : Option Json := do
  let steps ← value.pointerSteps? (← pointerParts? pointer)
  value.replace? part steps

end Json

end VideoScript
