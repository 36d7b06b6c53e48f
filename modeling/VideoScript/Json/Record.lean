import VideoScript.Json.Parser

/-!
# Reading records

A record is written as an object with its members by name, in any order, or as an array with its
members by position. Members that the record does not know are passed over. A member may be
required, may be left out of an object, or may be left out of both forms.

A mismatch is placed where the reading stands when it is noticed: after the text of a scalar,
before the bracket of an array or an object, and after the end of a record that lacks something.
-/

set_option autoImplicit false

namespace VideoScript.Json

open Text

/-- When a member may be left out. -/
inductive Presence where
  | required
  | optionalByName
  | optional
  deriving DecidableEq

/-- Reads a value with a number of levels that may still open. -/
abbrev Decoder (α : Type) := Nat → Reader α

/-- A member of a record that is gathered in `σ`. -/
structure Member (σ : Type) where
  name : String
  presence : Presence
  read : Decoder (σ → σ)

/-- A record with its name, its members in order, and its state before any member is read. -/
structure RecordShape (σ : Type) where
  name : String
  blank : σ
  members : List (Member σ)

/-- A mismatch right after what was read. -/
def mismatchHere {α : Type} (m : Mismatch) (rest : List Char) : Except Fault α :=
  faultHere (.mismatch m) rest

/-- The fault for a value of the wrong type. A scalar is read before it is refused, so that a
scalar that is not well formed is refused for that. -/
def refuseType {α : Type} (expected : String) (s : List Char) : Except Fault α :=
  let refuse (found : Found) (rest : List Char) : Except Fault α :=
    mismatchHere (.wrongType found expected) rest
  match s with
  | 'n' :: rest => do let (_, rest) ← readWord "ull".toList rest; refuse .null rest
  | 't' :: rest => do let (_, rest) ← readWord "rue".toList rest; refuse (.bool true) rest
  | 'f' :: rest => do let (_, rest) ← readWord "alse".toList rest; refuse (.bool false) rest
  | '-' :: rest => do let (n, rest) ← readNumber true rest; refuse (.number n) rest
  | '"' :: rest => do let (text, rest) ← readString rest; refuse (.text (.ofList text)) rest
  | '[' :: rest => refuse .sequence ('[' :: rest)
  | '{' :: rest => refuse .map ('{' :: rest)
  | [] => faultAtNext .expectedValue []
  | c :: rest =>
    if isDigit c then do let (n, rest) ← readNumber false (c :: rest); refuse (.number n) rest
    else faultAtNext .expectedValue (c :: rest)

/-- Reads past the blanks before a value, which must be there. -/
def valueStart (s : List Char) : Except Fault (List Char) :=
  match skipGaps s with
  | [] => faultAtNext .endInValue []
  | rest => .ok rest

/-! ## Scalars -/

/-- Reads a truth value. -/
def boolDecoder : Decoder Bool := fun _ s => do
  match ← valueStart s with
  | 't' :: rest => let (_, rest) ← readWord "rue".toList rest; return (true, rest)
  | 'f' :: rest => let (_, rest) ← readWord "alse".toList rest; return (false, rest)
  | rest => refuseType "a boolean" rest

/-- Takes a number as a count. -/
def countOfNumber (n : Number) (rest : List Char) : Except Fault (Nat × List Char) :=
  match n with
  | .whole (.ofNat k) => .ok (k, rest)
  | .whole k => mismatchHere (.wrongValue (.number (.whole k)) "usize") rest
  | .float x => mismatchHere (.wrongType (.number (.float x)) "usize") rest

/-- Reads a count: a whole number that is not negative. -/
def countDecoder : Decoder Nat := fun _ s => do
  match ← valueStart s with
  | '-' :: rest => let (n, rest) ← readNumber true rest; countOfNumber n rest
  | c :: rest =>
    if isDigit c then
      let (n, rest) ← readNumber false (c :: rest)
      countOfNumber n rest
    else refuseType "usize" (c :: rest)
  | [] => refuseType "usize" []

/-- Reads a string and makes something of it; `expected` names what the string stands for. -/
def stringDecoder {α : Type} (expected : String) (make : String → Except Mismatch α) :
    Decoder α := fun _ s => do
  match ← valueStart s with
  | '"' :: rest =>
    let (text, rest) ← readString rest
    match make (.ofList text) with
    | .ok a => return (a, rest)
    | .error m => mismatchHere m rest
  | rest => refuseType expected rest

/-- Reads a string as it stands. -/
def textDecoder (expected : String) : Decoder String := stringDecoder expected .ok

/-- Reads null as nothing and any other value with a decoder. -/
def optionDecoder {α : Type} (decoder : Decoder α) : Decoder (Option α) := fun depth s => do
  match skipGaps s with
  | 'n' :: rest => let (_, rest) ← readWord "ull".toList rest; return (none, rest)
  | rest => let (a, rest) ← decoder depth rest; return (some a, rest)

/-- Reads null. -/
def nullDecoder : Decoder Unit := fun _ s => do
  match ← valueStart s with
  | 'n' :: rest => readWord "ull".toList rest
  | rest => refuseType "unit" rest

/-- Reads a choice, written as its name or as an object with the name as its only key and null under
it. -/
def choiceDecoder {α : Type} (make : String → Except Mismatch α) : Decoder α := fun depth s => do
  let name := stringDecoder "variant identifier" make
  match ← valueStart s with
  | '"' :: rest => name depth ('"' :: rest)
  | '{' :: rest =>
    match depth with
    | 0 => faultAtNext .tooDeep ('{' :: rest)
    | depth + 1 =>
      let (a, rest) ← name depth rest
      let rest ← readColon rest
      let (_, rest) ← nullDecoder depth rest
      match skipGaps rest with
      | [] => faultHere .endInObject []
      | c :: rest => if c = '}' then return (a, rest) else faultHere .expectedValue (c :: rest)
  | rest => faultAtNext .expectedValue rest

/-! ## Records -/

/-- The text after the end of a record that is refused, as far as it can be read. -/
def afterRefused (close : Char) (s : List Char) : List Char :=
  match skipGaps s with
  | [] => []
  | c :: rest =>
    if c = close then rest
    else if c = ',' ∧ close = ']' then skipGaps rest
    else c :: rest

/-- Reads the closing bracket or brace of a record. -/
def readClose (close : Char) (s : List Char) : Except Fault (List Char) :=
  match skipGaps s with
  | [] => faultAtNext (if close = ']' then .endInList else .endInObject) []
  | c :: rest =>
    if c = close then .ok rest
    else if c = ',' then
      if close = ']' then
        match skipGaps rest with
        | ']' :: more => faultAtNext .trailingComma (']' :: more)
        | more => faultAtNext .trailingCharacters more
      else faultAtNext .trailingComma (c :: rest)
    else faultAtNext .trailingCharacters (c :: rest)

/-- Reads members by position; `first` tells whether none was there yet. -/
def readByPosition {σ : Type} (shape : RecordShape σ) (depth : Nat) :
    List (Member σ) → Bool → σ → List Char → Except Fault (σ × List Char)
  | [], _, state, s => .ok (state, s)
  | m :: more, first, state, s => do
    match ← beforeItem first s with
    | .next rest =>
      let (set, rest) ← m.read depth rest
      readByPosition shape depth more false (set state) rest
    | .finished rest =>
      if m.presence = .optional then readByPosition shape depth more first state rest
      else
        let count := shape.members.length
        let expected := s!"struct {shape.name} with {count} elements"
        mismatchHere (.wrongLength (count - more.length - 1) expected) (afterRefused ']' rest)

/-- Reads members by name; `seen` holds the names read so far. -/
def readByName {σ : Type} (shape : RecordShape σ) (depth : Nat) :
    Nat → Bool → List String → σ → List Char → Except Fault (σ × List Char)
  | 0, _, _, _, s => faultHere .endInObject s
  | fuel + 1, first, seen, state, s => do
    match ← beforeKey first s with
    | .finished rest =>
      match shape.members.find? fun m => m.presence = .required && !seen.contains m.name with
      | some m => mismatchHere (.missingMember m.name) (afterRefused '}' rest)
      | none => return (state, rest)
    | .next rest =>
      let (key, rest) ← readString rest
      let key := String.ofList key
      match shape.members.find? fun m => m.name = key with
      | none =>
        let rest ← readColon rest
        let rest ← skipValue (fuelFor rest) rest
        readByName shape depth fuel false seen state rest
      | some m =>
        if seen.contains key then
          mismatchHere (.repeatedMember key) (afterRefused '}' rest)
        else
          let rest ← readColon rest
          let (set, rest) ← m.read depth rest
          readByName shape depth fuel false (key :: seen) (set state) rest

/-- Reads a record in either form. -/
def recordDecoder {σ : Type} (shape : RecordShape σ) : Decoder σ := fun depth s => do
  match ← valueStart s with
  | '[' :: rest =>
    match depth with
    | 0 => faultAtNext .tooDeep ('[' :: rest)
    | depth + 1 =>
      let (state, rest) ← readByPosition shape depth shape.members true shape.blank rest
      return (state, ← readClose ']' rest)
  | '{' :: rest =>
    match depth with
    | 0 => faultAtNext .tooDeep ('{' :: rest)
    | depth + 1 =>
      let (state, rest) ← readByName shape depth (fuelFor rest) true [] shape.blank rest
      return (state, ← readClose '}' rest)
  | rest => refuseType ("struct " ++ shape.name) rest

/-- Reads a text that is one value of a kind. -/
def decodeChars {α : Type} (decoder : Decoder α) (s : List Char) : Except Fault α := do
  let (a, rest) ← decoder depthLimit s
  readEnd rest
  return a

/-- What a text writes, read with a decoder. -/
def decode {α : Type} (decoder : Decoder α) (text : String) : Except ReadError α :=
  (decodeChars decoder text.toList).mapError fun f => f.locate text.toList

end VideoScript.Json
