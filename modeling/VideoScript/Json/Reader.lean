import VideoScript.Json.Mismatch
import VideoScript.Text.Lines

/-!
# Reading JSON text

A reader takes characters off the front of a text and gives what it read with the characters left.
When it fails, the fault names the cause and how many bytes are still left at the place where the
text went wrong; `Fault.locate` turns that into a line and a column. Columns count bytes, from zero
right after a line feed.

This module reads the parts of a text: blanks, words, numbers and strings.
-/

set_option autoImplicit false

namespace VideoScript.Json

open Text

/-- Why a text is not JSON, or not the JSON that was expected. -/
inductive Cause where
  | endInList
  | endInObject
  | endInString
  | endInValue
  | expectedColon
  | expectedCommaOrEndOfList
  | expectedCommaOrEndOfObject
  | expectedWord
  | expectedValue
  | invalidEscape
  | invalidNumber
  | numberOutOfRange
  | controlCharacter
  | keyNotString
  | loneSurrogate
  | unfinishedSurrogate
  | trailingComma
  | trailingCharacters
  | tooDeep
  | mismatch (m : Mismatch)

/-- The wording of a cause. -/
def Cause.message : Cause → String
  | .endInList => "EOF while parsing a list"
  | .endInObject => "EOF while parsing an object"
  | .endInString => "EOF while parsing a string"
  | .endInValue => "EOF while parsing a value"
  | .expectedColon => "expected `:`"
  | .expectedCommaOrEndOfList => "expected `,` or `]`"
  | .expectedCommaOrEndOfObject => "expected `,` or `\x7d`"
  | .expectedWord => "expected ident"
  | .expectedValue => "expected value"
  | .invalidEscape => "invalid escape"
  | .invalidNumber => "invalid number"
  | .numberOutOfRange => "number out of range"
  | .controlCharacter => "control character (\\u0000-\\u001F) found while parsing a string"
  | .keyNotString => "key must be a string"
  | .loneSurrogate => "lone leading surrogate in hex escape"
  | .unfinishedSurrogate => "unexpected end of hex escape"
  | .trailingComma => "trailing comma"
  | .trailingCharacters => "trailing characters"
  | .tooDeep => "recursion limit exceeded"
  | .mismatch m => m.message

/-- A cause with the number of bytes left at its place. -/
structure Fault where
  cause : Cause
  left : Nat

/-- A cause with its line, counted from one, and its column, counted in bytes. -/
structure ReadError where
  cause : Cause
  line : Nat
  column : Nat

/-- The wording of a cause with its place. -/
def ReadError.message (e : ReadError) : String :=
  s!"{e.cause.message} at line {e.line} column {e.column}"

/-- The line and the column that a number of bytes into the text reaches. -/
def placeAfter (bytes line column : Nat) : List Char → Nat × Nat
  | [] => (line, column)
  | c :: rest =>
    if bytes < c.utf8Size then (line, column + bytes)
    else if c = '\n' then placeAfter (bytes - c.utf8Size) (line + 1) 0 rest
    else placeAfter (bytes - c.utf8Size) line (column + c.utf8Size) rest

/-- The error for a fault in a text. -/
def Fault.locate (f : Fault) (text : List Char) : ReadError :=
  let (line, column) := placeAfter (byteCount text - f.left) 1 0 text
  ⟨f.cause, line, column⟩

/-- A reader of a part of a text. -/
abbrev Reader (α : Type) := List Char → Except Fault (α × List Char)

/-- A fault right after what was read. -/
def faultHere {α : Type} (cause : Cause) (rest : List Char) : Except Fault α :=
  .error ⟨cause, byteCount rest⟩

/-- A fault at the next byte, which counts as read. -/
def faultAtNext {α : Type} (cause : Cause) (rest : List Char) : Except Fault α :=
  .error ⟨cause, byteCount rest - 1⟩

/-- The four characters that may stand between the parts of a text. -/
def isGap (c : Char) : Bool := c = ' ' || c = '\n' || c = '\t' || c = '\r'

/-- The text after the blanks at its start. -/
def skipGaps (s : List Char) : List Char := s.dropWhile isGap

/-- Reads the rest of a word whose first letter has been read. -/
def readWord : List Char → Reader Unit
  | [], s => .ok ((), s)
  | _ :: _, [] => faultHere .endInValue []
  | expected :: more, c :: rest =>
    if c = expected then readWord more rest
    else .error ⟨.expectedWord, byteCount (c :: rest) - 1⟩

/-! ## Numbers -/

/-- The whole number with a sign for a significand: zero with a minus sign is a float, and so is
what 64 bits cannot hold. -/
def signedNumber (negative : Bool) (significand : Nat) : Number :=
  if !negative then .whole significand
  else if significand = 0 ∨ Nat.pow 2 63 < significand then
    .float (-(Decimal.floatOfNat significand))
  else .whole (-(significand : Int))

/-- The float for a significand and a power of ten; a fault when it is too big. -/
def scaledNumber (negative : Bool) (significand : Nat) (exponent : Int) (rest : List Char) :
    Except Fault (Number × List Char) :=
  match Decimal.scale? significand exponent with
  | some x => .ok (.float (if negative then -x else x), rest)
  | none => faultHere .numberOutOfRange rest

/-- Takes digits onto a significand for as long as it fits 64 bits. -/
def takeDigits (significand : Nat) : List Char → Nat × List Char
  | [] => (significand, [])
  | c :: rest =>
    if isDigit c then
      let next := 10 * significand + digitValue c
      if next ≤ maxWord then takeDigits next rest else (significand, c :: rest)
    else (significand, c :: rest)

/-- The greatest exponent that is read digit by digit. -/
def maxExponent : Nat := Nat.pow 2 31 - 1

/-- Reads the digits of an exponent onto its value so far. `none` stands for an exponent beyond
`maxExponent`; the characters after the digit that made it so are given too. -/
def readExponentDigits (exponent : Nat) : List Char → Option Nat × List Char
  | [] => (some exponent, [])
  | c :: rest =>
    if isDigit c then
      let next := 10 * exponent + digitValue c
      if next ≤ maxExponent then readExponentDigits next rest else (none, rest)
    else (some exponent, c :: rest)

/-- Reads an exponent after its mark and gives the number. -/
def readExponent (negative : Bool) (significand : Nat) (exponent : Int) (s : List Char) :
    Except Fault (Number × List Char) :=
  let (down, digits) := match s with
    | '+' :: rest => (false, rest)
    | '-' :: rest => (true, rest)
    | _ => (false, s)
  match digits with
  | [] => faultHere .endInValue []
  | c :: rest =>
    if isDigit c then
      match readExponentDigits (digitValue c) rest with
      | (some e, rest) =>
        scaledNumber negative significand (exponent + (if down then -(e : Int) else e)) rest
      | (none, rest) =>
        if significand ≠ 0 ∧ !down then faultHere .numberOutOfRange rest
        else .ok (.float (if negative then -0.0 else 0.0), rest.dropWhile isDigit)
    else .error ⟨.invalidNumber, byteCount digits - 1⟩

/-- Reads what may follow the digits of a number that is a float: an exponent. -/
def readFloatEnd (negative : Bool) (significand : Nat) (exponent : Int) (s : List Char) :
    Except Fault (Number × List Char) :=
  match s with
  | c :: rest =>
    if c = 'e' ∨ c = 'E' then readExponent negative significand exponent rest
    else scaledNumber negative significand exponent s
  | [] => scaledNumber negative significand exponent s

/-- Reads the digits after a point. Digits that no longer fit 64 bits are dropped. -/
def readFraction (negative : Bool) (significand : Nat) (exponent : Int) (s : List Char) :
    Except Fault (Number × List Char) :=
  let (taken, rest) := takeDigits significand s
  let count := s.length - rest.length
  match s with
  | [] => faultAtNext .endInValue s
  | c :: _ =>
    if isDigit c then
      readFloatEnd negative taken (exponent - count) (rest.dropWhile isDigit)
    else faultAtNext .invalidNumber s

/-- Reads what may follow the whole digits of a number. -/
def readNumberEnd (negative : Bool) (significand : Nat) (s : List Char) :
    Except Fault (Number × List Char) :=
  match s with
  | '.' :: rest => readFraction negative significand 0 rest
  | c :: rest =>
    if c = 'e' ∨ c = 'E' then readExponent negative significand 0 rest
    else if isDigit c then
      -- The whole digits do not fit 64 bits: each further one only counts.
      let extra := (s.takeWhile isDigit).length
      match s.dropWhile isDigit with
      | '.' :: rest => readFraction negative significand extra rest
      | rest => readFloatEnd negative significand extra rest
    else .ok (signedNumber negative significand, s)
  | [] => .ok (signedNumber negative significand, s)

/-- Reads a number after its sign. -/
def readNumber (negative : Bool) (s : List Char) : Except Fault (Number × List Char) :=
  match s with
  | [] => faultHere .invalidNumber []
  | '0' :: rest =>
    match rest with
    | c :: _ => if isDigit c then faultAtNext .invalidNumber rest
      else readNumberEnd negative 0 rest
    | [] => readNumberEnd negative 0 rest
  | c :: _ =>
    if isDigit c then
      let (significand, rest) := takeDigits 0 s
      readNumberEnd negative significand rest
    else .error ⟨.invalidNumber, byteCount s - 1⟩

/-! ## Strings -/

/-- The number that four hexadecimal digits write. -/
def codeUnit? (a b c d : Char) : Option Nat := do
  let a ← hexValue? a
  let b ← hexValue? b
  let c ← hexValue? c
  let d ← hexValue? d
  return ((a * 16 + b) * 16 + c) * 16 + d

/-- The fault of an escape whose four digits are not there. -/
def faultInDigits {α : Type} (s : List Char) : Except Fault α :=
  if 4 ≤ byteCount s then .error ⟨.invalidEscape, byteCount s - 4⟩ else .error ⟨.endInString, 0⟩

/-- The character that a short escape stands for. -/
def shortEscape? (c : Char) : Option Char :=
  if c = '"' then some '"'
  else if c = '\\' then some '\\'
  else if c = '/' then some '/'
  else if c = 'b' then some '\x08'
  else if c = 'f' then some '\x0c'
  else if c = 'n' then some '\n'
  else if c = 'r' then some '\r'
  else if c = 't' then some '\t'
  else none

/-- Whether a code unit is the first half of a pair. -/
def isFirstHalf (n : Nat) : Bool := 0xD800 ≤ n && n ≤ 0xDBFF

/-- Whether a code unit is the second half of a pair. -/
def isSecondHalf (n : Nat) : Bool := 0xDC00 ≤ n && n ≤ 0xDFFF

/-- The character that two halves stand for. -/
def joinHalves (first second : Nat) : Char :=
  Char.ofNat ((first - 0xD800) * 1024 + (second - 0xDC00) + 0x10000)

/-- The fault of a first half that no second half follows. -/
def faultAfterFirstHalf {α : Type} : List Char → Except Fault α
  | [] => .error ⟨.endInString, 0⟩
  | '\\' :: [] => .error ⟨.endInString, 0⟩
  | '\\' :: 'u' :: rest => faultInDigits rest
  | '\\' :: rest => .error ⟨.unfinishedSurrogate, byteCount rest - 1⟩
  | rest => .error ⟨.unfinishedSurrogate, byteCount rest - 1⟩

/-- Reads a string after its opening quotation mark. -/
def readString : List Char → Except Fault (List Char × List Char)
  | [] => faultHere .endInString []
  | '"' :: rest => .ok ([], rest)
  | '\\' :: 'u' :: a :: b :: c :: d :: rest =>
    match codeUnit? a b c d with
    | none => faultInDigits (a :: b :: c :: d :: rest)
    | some first =>
      if isSecondHalf first then faultHere .loneSurrogate rest
      else if isFirstHalf first then
        match rest with
        | '\\' :: 'u' :: e :: f :: g :: h :: more =>
          match codeUnit? e f g h with
          | none => faultInDigits (e :: f :: g :: h :: more)
          | some second =>
            if isSecondHalf second then do
              let (s, left) ← readString more
              return (joinHalves first second :: s, left)
            else faultHere .loneSurrogate more
        | _ => faultAfterFirstHalf rest
      else do
        let (s, left) ← readString rest
        return (Char.ofNat first :: s, left)
  | '\\' :: c :: rest =>
    match shortEscape? c with
    | some e => do
      let (s, left) ← readString rest
      return (e :: s, left)
    | none =>
      if c = 'u' then faultInDigits rest else .error ⟨.invalidEscape, byteCount (c :: rest) - 1⟩
  | c :: rest =>
    if c = '\\' then faultHere .endInString []
    else if c.toNat < 32 then faultHere .controlCharacter rest
    else do
      let (s, left) ← readString rest
      return (c :: s, left)

end VideoScript.Json
