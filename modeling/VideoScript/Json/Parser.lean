import VideoScript.Json.Reader

/-!
# Parsing JSON

`parse` reads one value and nothing after it. Arrays and objects nest up to `depthLimit` levels. A
key that stands twice in an object keeps its first place and takes its last value.

`skipValue` passes over a value without building it. It is less strict about what it passes over:
it has no limit on the nesting, and it does not ask that surrogates come in pairs or that a number
fits a float.
-/

set_option autoImplicit false

namespace VideoScript.Json

open Text

/-- The greatest number of arrays and objects around a value. -/
def depthLimit : Nat := 127

/-- Where a list or an object goes on after a value, when a comma must come first. -/
inductive Continuation where
  | next (rest : List Char)
  | finished (rest : List Char)

/-- Reads what stands before an item of a list; `first` tells whether no item came yet. The closing
bracket is left in place. -/
def beforeItem (first : Bool) (s : List Char) : Except Fault Continuation :=
  match skipGaps s with
  | [] => faultAtNext .endInList []
  | ']' :: rest => .ok (.finished (']' :: rest))
  | c :: rest =>
    if first then .ok (.next (c :: rest))
    else if c = ',' then
      match skipGaps rest with
      | [] => faultAtNext .endInValue []
      | ']' :: more => faultAtNext .trailingComma (']' :: more)
      | more => .ok (.next more)
    else faultAtNext .expectedCommaOrEndOfList (c :: rest)

/-- Reads what stands before the key of a member of an object, its quotation mark included. The
closing brace is left in place. -/
def beforeKey (first : Bool) (s : List Char) : Except Fault Continuation :=
  match skipGaps s with
  | [] => faultAtNext .endInObject []
  | c :: rest =>
    if c = '}' then .ok (.finished (c :: rest))
    else if first then
      if c = '"' then .ok (.next rest) else faultAtNext .keyNotString (c :: rest)
    else if c = ',' then
      match skipGaps rest with
      | [] => faultAtNext .endInValue []
      | d :: more =>
        if d = '"' then .ok (.next more)
        else if d = '}' then faultAtNext .trailingComma (d :: more)
        else faultAtNext .keyNotString (d :: more)
    else faultAtNext .expectedCommaOrEndOfObject (c :: rest)

/-- Reads the colon between a key and its value. -/
def readColon (s : List Char) : Except Fault (List Char) :=
  match skipGaps s with
  | [] => faultAtNext .endInObject []
  | ':' :: rest => .ok rest
  | rest => faultAtNext .expectedColon rest

mutual

/-- Reads a value. `depth` is how many levels of arrays and objects may still open, and `fuel`
bounds the number of steps. -/
def readValue (fuel depth : Nat) (s : List Char) : Except Fault (Json × List Char) :=
  match fuel with
  | 0 => faultHere .endInValue s
  | fuel + 1 =>
    match skipGaps s with
    | [] => faultAtNext .endInValue []
    | '"' :: rest => do
      let (text, rest) ← readString rest
      return (string (.ofList text), rest)
    | '[' :: rest =>
      match depth with
      | 0 => faultAtNext .tooDeep ('[' :: rest)
      | depth + 1 => do
        let (items, rest) ← readItems fuel depth true rest
        return (array items, rest.drop 1)
    | '{' :: rest =>
      match depth with
      | 0 => faultAtNext .tooDeep ('{' :: rest)
      | depth + 1 => do
        let (members, rest) ← readMembers fuel depth true [] rest
        return (object members, rest.drop 1)
    | 'n' :: rest => do
      let (_, rest) ← readWord "ull".toList rest
      return (null, rest)
    | 't' :: rest => do
      let (_, rest) ← readWord "rue".toList rest
      return (bool true, rest)
    | 'f' :: rest => do
      let (_, rest) ← readWord "alse".toList rest
      return (bool false, rest)
    | '-' :: rest => do
      let (n, rest) ← readNumber true rest
      return (number n, rest)
    | c :: rest =>
      if isDigit c then do
        let (n, rest) ← readNumber false (c :: rest)
        return (number n, rest)
      else faultAtNext .expectedValue (c :: rest)

/-- Reads the items of a list up to its closing bracket. -/
def readItems (fuel depth : Nat) (first : Bool) (s : List Char) :
    Except Fault (List Json × List Char) :=
  match fuel with
  | 0 => faultHere .endInList s
  | fuel + 1 => do
    match ← beforeItem first s with
    | .finished rest => return ([], rest)
    | .next rest =>
      let (value, rest) ← readValue fuel depth rest
      let (values, rest) ← readItems fuel depth false rest
      return (value :: values, rest)

/-- Reads the members of an object up to its closing brace, onto those read before. -/
def readMembers (fuel depth : Nat) (first : Bool) (before : Members) (s : List Char) :
    Except Fault (Members × List Char) :=
  match fuel with
  | 0 => faultHere .endInObject s
  | fuel + 1 => do
    match ← beforeKey first s with
    | .finished rest => return (before, rest)
    | .next rest =>
      let (key, rest) ← readString rest
      let rest ← readColon rest
      let (value, rest) ← readValue fuel depth rest
      readMembers fuel depth false (before.put (.ofList key) value) rest

end

/-- The fuel with which every text of a length can be read: each step but two takes a
character. -/
def fuelFor (s : List Char) : Nat := 2 * s.length + 2

/-- Makes sure that nothing but blanks follows. -/
def readEnd (s : List Char) : Except Fault Unit :=
  match skipGaps s with
  | [] => .ok ()
  | rest => faultAtNext .trailingCharacters rest

/-- Reads a text that is one value. -/
def parseChars (s : List Char) : Except Fault Json := do
  let (value, rest) ← readValue (fuelFor s) depthLimit s
  readEnd rest
  return value

/-- The value that a text writes. -/
def parse (text : String) : Except ReadError Json :=
  (parseChars text.toList).mapError fun f => f.locate text.toList

/-! ## Passing over a value -/

/-- Passes over the rest of a string after its opening quotation mark. -/
def skipString : List Char → Except Fault (List Char)
  | [] => faultHere .endInString []
  | '"' :: rest => .ok rest
  | '\\' :: 'u' :: a :: b :: c :: d :: rest =>
    if (codeUnit? a b c d).isSome then skipString rest
    else faultInDigits (a :: b :: c :: d :: rest)
  | '\\' :: c :: rest =>
    if (shortEscape? c).isSome then skipString rest
    else if c = 'u' then faultInDigits rest
    else .error ⟨.invalidEscape, byteCount (c :: rest) - 1⟩
  | c :: rest =>
    if c = '\\' then faultHere .endInString []
    else if c.toNat < 32 then faultHere .controlCharacter rest
    else skipString rest

/-- Passes over an exponent after its mark. -/
def skipExponent (s : List Char) : Except Fault (List Char) :=
  let digits := match s with
    | '+' :: rest => rest
    | '-' :: rest => rest
    | _ => s
  match digits with
  | [] => faultHere .invalidNumber []
  | c :: rest =>
    if isDigit c then .ok (rest.dropWhile isDigit)
    else .error ⟨.invalidNumber, byteCount digits - 1⟩

/-- Passes over what may follow the digits of a number: an exponent. -/
def skipFloatEnd (s : List Char) : Except Fault (List Char) :=
  match s with
  | c :: rest => if c = 'e' ∨ c = 'E' then skipExponent rest else .ok s
  | [] => .ok []

/-- Passes over what may follow the whole digits of a number. -/
def skipNumberEnd (s : List Char) : Except Fault (List Char) :=
  match s with
  | '.' :: rest =>
    match rest with
    | c :: more => if isDigit c then skipFloatEnd (more.dropWhile isDigit)
      else faultAtNext .invalidNumber rest
    | [] => faultAtNext .invalidNumber []
  | _ => skipFloatEnd s

/-- Passes over a number after its sign. -/
def skipNumber (s : List Char) : Except Fault (List Char) :=
  match s with
  | [] => faultHere .invalidNumber []
  | '0' :: rest =>
    match rest with
    | c :: _ => if isDigit c then faultAtNext .invalidNumber rest else skipNumberEnd rest
    | [] => .ok []
  | c :: rest =>
    if isDigit c then skipNumberEnd (rest.dropWhile isDigit)
    else .error ⟨.invalidNumber, byteCount s - 1⟩

/-- Passes over a key after its quotation mark, and the colon. -/
def skipKey (s : List Char) : Except Fault (List Char) := do
  readColon (← skipString s)

mutual

/-- Passes over a value. -/
def skipValue (fuel : Nat) (s : List Char) : Except Fault (List Char) :=
  match fuel with
  | 0 => faultHere .endInValue s
  | fuel + 1 =>
    match skipGaps s with
    | [] => faultAtNext .endInValue []
    | '"' :: rest => skipString rest
    | '[' :: rest => skipItems fuel true rest
    | '{' :: rest => skipMembers fuel true rest
    | 'n' :: rest => (readWord "ull".toList rest).map (·.2)
    | 't' :: rest => (readWord "rue".toList rest).map (·.2)
    | 'f' :: rest => (readWord "alse".toList rest).map (·.2)
    | '-' :: rest => skipNumber rest
    | c :: rest =>
      if isDigit c then skipNumber (c :: rest) else faultAtNext .expectedValue (c :: rest)

/-- Passes over the items of a list and its closing bracket. -/
def skipItems (fuel : Nat) (first : Bool) (s : List Char) : Except Fault (List Char) :=
  match fuel with
  | 0 => faultHere .endInList s
  | fuel + 1 =>
    match skipGaps s with
    | [] => faultAtNext .endInList []
    | ']' :: rest => .ok rest
    | c :: rest =>
      if first then do skipItems fuel false (← skipValue fuel (c :: rest))
      else if c = ',' then do skipItems fuel false (← skipValue fuel rest)
      else faultAtNext .expectedCommaOrEndOfList (c :: rest)

/-- Passes over the members of an object and its closing brace. -/
def skipMembers (fuel : Nat) (first : Bool) (s : List Char) : Except Fault (List Char) :=
  match fuel with
  | 0 => faultHere .endInObject s
  | fuel + 1 =>
    match skipGaps s with
    | [] => faultAtNext .endInObject []
    | c :: rest =>
      if c = '}' then .ok rest
      else if first then
        if c = '"' then do skipMembers fuel false (← skipValue fuel (← skipKey rest))
        else faultAtNext .keyNotString (c :: rest)
      else if c = ',' then
        match skipGaps rest with
        | [] => faultAtNext .endInObject []
        | d :: more =>
          if d = '"' then do skipMembers fuel false (← skipValue fuel (← skipKey more))
          else faultAtNext .keyNotString (d :: more)
      else faultAtNext .expectedCommaOrEndOfObject (c :: rest)

end

end VideoScript.Json
