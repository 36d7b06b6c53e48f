import VideoScript.Decimal.Reading

/-!
# JSON values

An object keeps its members in the order in which they were written. A number is whole when it is
written as an integer that 64 bits hold, and a float otherwise; the two never mix.
-/

set_option autoImplicit false

namespace VideoScript

/-- A JSON number. -/
inductive Json.Number where
  | whole (n : Int)
  | float (x : Float)
  deriving DecidableEq

/-- A JSON value. -/
inductive Json where
  | null
  | bool (b : Bool)
  | number (n : Json.Number)
  | string (s : String)
  | array (items : List Json)
  | object (members : List (String × Json))

namespace Json

/-- The members of an object, in order. -/
abbrev Members := List (String × Json)

/-- The value of the first member with a key. -/
def Members.get? (members : Members) (key : String) : Option Json := members.lookup key

/-- Whether a key stands in an object. -/
def Members.has (members : Members) (key : String) : Bool := (members.get? key).isSome

/-- The members with a key set to a value: a key that is present keeps its place, a new one comes
last. -/
def Members.put (members : Members) (key : String) (value : Json) : Members :=
  match members with
  | [] => [(key, value)]
  | (k, v) :: rest => if k = key then (k, value) :: rest else (k, v) :: put rest key value

/-- The members of an object. -/
def members? : Json → Option Members
  | object members => some members
  | _ => none

/-- The items of an array. -/
def items? : Json → Option (List Json)
  | array items => some items
  | _ => none

/-- The text of a string. -/
def text? : Json → Option String
  | string s => some s
  | _ => none

/-- The value of a member, when the value is an object that has it. -/
def get? (value : Json) (key : String) : Option Json := value.members?.bind (·.get? key)

/-- The value of a number as a float. -/
def Number.toFloat : Number → Float
  | .whole n => if 0 ≤ n then Decimal.floatOfNat n.natAbs else -(Decimal.floatOfNat n.natAbs)
  | .float x => x

/-- The value of a number as a float, for a number. -/
def float? : Json → Option Float
  | number n => some n.toFloat
  | _ => none

/-- The number for a float: there is none for an infinite float or one that is no number. -/
def ofFloat (x : Float) : Json := if x.isFinite then number (.float x) else null

/-- The number for a natural number. -/
def ofNat (n : Nat) : Json := number (.whole n)

/-- The string, or null when there is none. -/
def ofText? : Option String → Json
  | none => null
  | some s => string s

/-! ## Small laws -/

/-- After a member is set, it has the value it was given. -/
theorem Members.get?_put_self (members : Members) (key : String) (value : Json) :
    (members.put key value).get? key = some value := by
  induction members with
  | nil => simp [put, get?]
  | cons m rest ih =>
    obtain ⟨k, v⟩ := m
    rw [put]
    split
    · next h => subst h; simp [get?]
    · next h =>
      have hk : (key == k) = false := by simpa using fun e => h e.symm
      simpa [get?, List.lookup_cons, hk] using ih

/-- Setting a member leaves every other one as it was. -/
theorem Members.get?_put_of_ne {members : Members} {key other : String} {value : Json}
    (h : other ≠ key) : (members.put key value).get? other = members.get? other := by
  induction members with
  | nil =>
    have : (other == key) = false := by simpa using h
    simp [put, get?, List.lookup_cons, this]
  | cons m rest ih =>
    obtain ⟨k, v⟩ := m
    rw [put]
    split
    · next e =>
      subst e
      have : (other == k) = false := by simpa using h
      simp [get?, List.lookup_cons, this]
    · cases ho : other == k with
      | true => simp [get?, List.lookup_cons, ho]
      | false => simpa [get?, List.lookup_cons, ho] using ih

end Json

end VideoScript
