import VideoScript.Text.Lines
import VideoScript.Web.Domain

/-!
# Hosts

A host is a domain name, an address of four bytes or an address of eight words. A name whose last
label is a number is an address of four bytes, or no host at all. Its parts may be written to the
bases 8, 10 and 16, and the last part stands for all bytes that are left.
-/

set_option autoImplicit false

namespace VideoScript.Web

open Text

/-- Why a text is no URL. -/
inductive UrlError where
  | emptyHost
  | badName
  | badPort
  | badBytes
  | badWords
  | badHostCharacter
  | noScheme
  deriving DecidableEq, Repr

/-- The wording of an error. -/
def UrlError.message : UrlError → String
  | .emptyHost => "empty host"
  | .badName => "invalid international domain name"
  | .badPort => "invalid port number"
  | .badBytes => "invalid IPv4 address"
  | .badWords => "invalid IPv6 address"
  | .badHostCharacter => "invalid domain character"
  | .noScheme => "relative URL without a base"

/-- A host. -/
inductive Host where
  | domain (name : String)
  /-- An address of four bytes, as one number. -/
  | bytes (address : Nat)
  /-- An address of eight words of 16 bits. -/
  | words (parts : List Nat)
  deriving DecidableEq, Repr

/-! ## Addresses of four bytes -/

/-- The number that digits to a base write. -/
def numberTo? (base : Nat) (digits : List Char) : Option Nat :=
  digits.foldlM (fun n c => (hexValue? c).bind fun d =>
    if d < base then some (base * n + d) else none) 0

/-- The number that a part of an address writes. -/
def partNumber? (part : List Char) : Option Nat :=
  match part with
  | [] => none
  | '0' :: 'x' :: digits => numberTo? 16 digits
  | '0' :: 'X' :: digits => numberTo? 16 digits
  | '0' :: c :: digits => numberTo? 8 (c :: digits)
  | digits => numberTo? 10 digits

/-- The parts of a name, without an empty last one. -/
def nameParts (name : List Char) : List (List Char) :=
  let parts := splitAt '.' name
  if parts.getLast? = some [] then parts.dropLast else parts

/-- Whether the last part of a name is a number. -/
def endsInNumber (name : List Char) : Bool :=
  match (nameParts name).getLast? with
  | some part => (!part.isEmpty && part.all isDigit) || (partNumber? part).isSome
  | none => false

/-- The address of four bytes that a name writes. -/
def addressOf? (name : List Char) : Option Nat := do
  let numbers ← (nameParts name).mapM partNumber?
  let last ← numbers.getLast?
  let first := numbers.dropLast
  let left := 4 - first.length
  if 4 < numbers.length || first.any (255 < ·) || Nat.pow 256 left ≤ last then none
  else return first.foldl (fun n d => 256 * n + d) 0 * Nat.pow 256 left + last

/-- The text of an address of four bytes. -/
def bytesText (address : Nat) : String :=
  let part (place : Nat) := String.ofList (digitsOfNatural (address / Nat.pow 256 place % 256))
  ".".intercalate [part 3, part 2, part 1, part 0]

/-! ## Addresses of eight words -/

/-- A byte in decimal digits, without a needless zero. -/
def byte? (s : List Char) : Option Nat :=
  match s with
  | '0' :: _ :: _ => none
  | _ => if s.isEmpty then none else (numberTo? 10 s).filter (· ≤ 255)

/-- A word in at most four hexadecimal digits. -/
def word? (s : List Char) : Option Nat :=
  if s.isEmpty || 4 < s.length then none else numberTo? 16 s

/-- The two words that four bytes with points between them write. -/
def wordPair? (s : List Char) : Option (List Nat) := do
  match ← (splitAt '.' s).mapM byte? with
  | [a, b, c, d] => return [256 * a + b, 256 * c + d]
  | _ => none

/-- The words of pieces; the last piece may be four bytes. -/
def wordsOf? : List (List Char) → Option (List Nat)
  | [] => some []
  | [piece] => if piece.contains '.' then wordPair? piece else (word? piece).map ([·])
  | piece :: rest => do return (← word? piece) :: (← wordsOf? rest)

/-- The words of a text with colons between them; none for an empty text. -/
def wordList? (s : List Char) : Option (List Nat) :=
  if s.isEmpty then some [] else wordsOf? (splitAt ':' s)

/-- The text before and after the first two colons. -/
def splitColons? : List Char → Option (List Char × List Char)
  | ':' :: ':' :: rest => some ([], rest)
  | c :: rest => (splitColons? rest).map fun (before, after) => (c :: before, after)
  | [] => none

/-- The eight words that a text writes. Two colons stand for one or more words of zero. -/
def eightWords? (s : List Char) : Option (List Nat) :=
  match splitColons? s with
  | none => (wordList? s).filter fun l => l.length = 8
  | some (before, after) => do
    if before.contains '.' then none
    let before ← wordList? before
    let after ← wordList? after
    let count := before.length + after.length
    if count < 8 then return before ++ List.replicate (8 - count) 0 ++ after else none

/-- The word in hexadecimal digits. -/
def wordText (n : Nat) : String := .ofList (Nat.toDigits 16 n)

/-- The length of the run of zeros at the start of a list. -/
def zeroRun (words : List Nat) : Nat := (words.takeWhile (· = 0)).length

/-- The place and the length of the first longest run of zeros. -/
def longestRun (words : List Nat) : Nat × Nat :=
  (List.range words.length).foldl (fun best place =>
    let run := zeroRun (words.drop place)
    if best.2 < run then (place, run) else best) (0, 0)

/-- The text of an address of eight words: two colons for the longest run of at least two zeros. -/
def wordsText (words : List Nat) : String :=
  let shown (l : List Nat) := ":".intercalate (l.map wordText)
  let (place, run) := longestRun words
  if run < 2 then shown words
  else shown (words.take place) ++ "::" ++ shown (words.drop (place + run))

/-! ## Hosts -/

/-- The host that a text in brackets writes, read after the first bracket. -/
def bracketHost (s : List Char) : Except UrlError Host :=
  match s.reverse with
  | ']' :: inner =>
    match eightWords? inner.reverse with
    | some words => .ok (.words words)
    | none => .error .badWords
  | _ => .error .badWords

/-- The host of a web address. -/
def webHost (s : List Char) : Except UrlError Host :=
  match s with
  | '[' :: rest => bracketHost rest
  | _ =>
    match (unescape? s).bind asciiDomain? with
    | none => .error .badName
    | some name =>
      if name.isEmpty then .error .emptyHost
      else if endsInNumber name then
        match addressOf? name with
        | some address => .ok (.bytes address)
        | none => .error .badBytes
      else .ok (.domain (.ofList name))

/-- A character that no host of another kind of address may have. -/
def isForbiddenElsewhere (c : Char) : Bool := "\x00\t\n\r #/:<>?@[\\]^|".toList.contains c

/-- The host of an address that is no web address. -/
def otherHost (s : List Char) : Except UrlError Host :=
  match s with
  | '[' :: rest => bracketHost rest
  | _ =>
    if s.any isForbiddenElsewhere then .error .badHostCharacter
    else .ok (.domain (.ofList (escape isControl s)))

/-- The text of a host in a URL. -/
def Host.text : Host → String
  | domain name => name
  | bytes address => bytesText address
  | words parts => "[" ++ wordsText parts ++ "]"

end VideoScript.Web
