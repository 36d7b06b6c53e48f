import VideoScript.Web.Host

/-!
# URLs

A URL is a scheme, a host with a user and a port, a path, a query and a fragment. Reading one is
lenient where nothing is lost by it: tabs and line ends do not count, nor do blanks around the
whole; a web address may have any number of slashes before its host, in either direction; steps up
and single dots in a path are taken at once. `Url.text` gives one spelling for all of these.

This is the reader that the program runs with. What is proved of the program holds for any reader
(`UrlReader`).
-/

set_option autoImplicit false

namespace VideoScript

open Text Web

/-- A URL. Texts of its parts are kept as they stand in its own text. -/
structure Url where
  scheme : String
  user : String
  password : String
  host : Option Web.Host
  port : Option Nat
  path : String
  query : Option String
  fragment : Option String
  deriving DecidableEq, Repr

namespace Url

/-- How an address with a scheme is read. -/
inductive Family where
  /-- An address on the web: the host must be there. -/
  | web
  | file
  | other
  deriving DecidableEq, Repr

/-- The family of a scheme. -/
def family (scheme : String) : Family :=
  if ["http", "https", "ws", "wss", "ftp"].contains scheme then .web
  else if scheme = "file" then .file
  else .other

/-- The port that a scheme has when none is given. -/
def defaultPort? (scheme : String) : Option Nat :=
  [("http", 80), ("https", 443), ("ws", 80), ("wss", 443), ("ftp", 21)].lookup scheme

/-- Whether a character stands for a slash. -/
def isSlash (family : Family) (c : Char) : Bool := c = '/' || (c = '\\' && family ≠ .other)

/-- Whether a character ends a host. -/
def endsHost (family : Family) (c : Char) : Bool := isSlash family c || c = '?' || c = '#'

/-! ## The parts of a text -/

/-- A blank or a control character. -/
def isOuterBlank (c : Char) : Bool := c.toNat ≤ 0x20

/-- The text that counts: without blanks around it, tabs and line ends. -/
def counting (s : List Char) : List Char :=
  let s := ((s.dropWhile isOuterBlank).reverse.dropWhile isOuterBlank).reverse
  s.filter fun c => c ≠ '\t' && c ≠ '\n' && c ≠ '\r'

/-- A character of a scheme. -/
def isSchemeChar (c : Char) : Bool := isLetterOrDigit c || c = '+' || c = '-' || c = '.'

/-- The scheme before the first colon, in small letters, and the text after it. -/
def splitScheme? (s : List Char) : Option (String × List Char) :=
  let scheme := s.takeWhile isSchemeChar
  match scheme, s.drop scheme.length with
  | c :: _, ':' :: rest =>
    if isLetter c then some (.ofList (scheme.map lowerAscii), rest) else none
  | _, _ => none

/-- The path, the query and the fragment of a text, as they are written. -/
def splitTail (s : List Char) : List Char × Option (List Char) × Option (List Char) :=
  let front := s.takeWhile (· ≠ '#')
  let fragment := match s.drop front.length with
    | _ :: rest => some rest
    | [] => none
  let path := front.takeWhile (· ≠ '?')
  let query := match front.drop path.length with
    | _ :: rest => some rest
    | [] => none
  (path, query, fragment)

/-- The host and what follows it; a colon in brackets belongs to the host. -/
def splitHost (family : Family) : Bool → List Char → List Char × List Char
  | _, [] => ([], [])
  | inside, c :: rest =>
    if endsHost family c || (c = ':' && !inside) then ([], c :: rest)
    else
      let inside := if c = '[' then true else if c = ']' then false else inside
      let (host, rest) := splitHost family inside rest
      (c :: host, rest)

/-- The text up to the last at sign before the host ends, and the text after it. -/
def splitUser? (family : Family) (s : List Char) : Option (List Char × List Char) :=
  let authority := s.takeWhile fun c => !endsHost family c
  if authority.contains '@' then
    let host := (authority.reverse.takeWhile (· ≠ '@')).reverse
    let before := authority.length - host.length
    some (s.take (before - 1), s.drop before)
  else none

/-! ## Paths -/

/-- Whether a piece of a path is a single dot. -/
def isHere (piece : List Char) : Bool := [".", "%2e"].contains (.ofList (piece.map lowerAscii))

/-- Whether a piece of a path is two dots. -/
def isUp (piece : List Char) : Bool :=
  ["..", ".%2e", "%2e.", "%2e%2e"].contains (.ofList (piece.map lowerAscii))

/-- Takes the pieces of a path one after the other; those taken so far come in reverse. -/
def takePieces (taken : List (List Char)) : List (List Char) → List (List Char)
  | [] => taken.reverse
  | piece :: rest =>
    let last := rest.isEmpty
    if isUp piece then takePieces (if last then [] :: taken.drop 1 else taken.drop 1) rest
    else if isHere piece then takePieces (if last then [] :: taken else taken) rest
    else takePieces (escape inPath piece :: taken) rest

/-- A path from the root, without its dots. -/
def rootedPath (family : Family) (s : List Char) : String :=
  let s := s.map fun c => if isSlash family c then '/' else c
  let s := match s with
    | '/' :: rest => rest
    | _ => s
  .ofList ((takePieces [] (splitAt '/' s)).flatMap fun piece => '/' :: piece)

/-! ## Reading -/

/-- Reads a port after its colon. -/
def readPort (family : Family) (s : List Char) : Except UrlError (Option Nat × List Char) :=
  let digits := s.takeWhile isDigit
  let rest := s.drop digits.length
  let n := naturalOfDigits digits
  if 65535 < n then .error .badPort
  else match rest with
    | c :: _ =>
      if endsHost family c || c = '\\' then .ok (if digits.isEmpty then none else some n, rest)
      else .error .badPort
    | [] => .ok (if digits.isEmpty then none else some n, [])

/-- The name and the password of a user. -/
def userParts (s : List Char) : String × String :=
  let name := s.takeWhile (· ≠ ':')
  (.ofList (escape inUser name), .ofList (escape inUser (s.drop (name.length + 1))))

/-- The user before a host, and the text from the host on. -/
def readUser (family : Family) (s : List Char) :
    Except UrlError ((String × String) × List Char) :=
  match splitUser? family s with
  | none => .ok (("", ""), s)
  | some (user, rest) =>
    if user.isEmpty && rest.head?.any (endsHost family) then .error .emptyHost
    else .ok (userParts user, rest)

/-- The query as it stands in the text of a URL. -/
def queryText (s : List Char) : String := .ofList (escape inQuery s)

/-- The fragment as it stands in the text of a URL. -/
def fragmentText (s : List Char) : String := .ofList (escape inFragment s)

/-- The URL with a path, a query and a fragment from a text. -/
def withTail (url : Url) (path : List Char → String) (s : List Char) : Url :=
  let (front, query, fragment) := splitTail s
  { url with
    path := path front, query := query.map queryText, fragment := fragment.map fragmentText }

/-- A URL with a scheme alone. -/
def bare (scheme : String) : Url := ⟨scheme, "", "", none, none, "", none, none⟩

/-- A path after a host. -/
def pathAfterHost (family : Family) (s : List Char) : String :=
  if s.isEmpty && family = .other then "" else rootedPath family s

/-- Reads an address from its user or its host on. -/
def readAuthority (family : Family) (scheme : String) (s : List Char) : Except UrlError Url := do
  let ((user, password), rest) ← readUser family s
  let (name, rest) := splitHost family false rest
  if name.isEmpty && family = .web then throw .emptyHost
  let host ← if family = .other then otherHost name else webHost name
  if name.isEmpty && (rest.head? = some ':' || !user.isEmpty || !password.isEmpty) then
    throw .emptyHost
  let (port, rest) ← match rest with
    | ':' :: more => readPort family more
    | _ => pure (none, rest)
  let port := if port = defaultPort? scheme then none else port
  let url : Url := { bare scheme with user, password, host := some host, port }
  return url.withTail (pathAfterHost family) rest

/-- Whether a piece of a path is the name of a drive. -/
def isDrive (s : List Char) : Bool :=
  match s with
  | [c, mark] => isLetter c && (mark = ':' || mark = '|')
  | _ => false

/-- Reads the address of a file. -/
def readFileUrl (s : List Char) : Except UrlError Url := do
  let slashes := (s.takeWhile (isSlash .file)).length
  let here : Url := { bare "file" with host := some (.domain "") }
  if slashes < 2 then return here.withTail (rootedPath .file) s
  let rest := s.drop 2
  let name := rest.takeWhile fun c => !endsHost .file c
  if name.isEmpty || isDrive name then return here.withTail (rootedPath .file) rest
  let host ← webHost name
  let host := if host = .domain "localhost" then .domain "" else host
  return { here with host := some host }.withTail (rootedPath .file) (rest.drop name.length)

/-- Reads an address of another kind. -/
def readOther (scheme : String) (s : List Char) : Except UrlError Url :=
  match s with
  | '/' :: '/' :: rest => readAuthority .other scheme rest
  | '/' :: _ => .ok ((bare scheme).withTail (rootedPath .other) s)
  | _ => .ok ((bare scheme).withTail (fun path => .ofList (escape isControl path)) s)

/-- The URL that a text writes. -/
def parse (text : String) : Except UrlError Url :=
  match splitScheme? (counting text.toList) with
  | none => .error .noScheme
  | some (scheme, rest) =>
    match family scheme with
    | .web => readAuthority .web scheme (rest.dropWhile (isSlash .web))
    | .file => readFileUrl rest
    | .other => readOther scheme rest

/-! ## Writing -/

/-- The user as it stands before a host. -/
def userText (url : Url) : String :=
  if url.user.isEmpty && url.password.isEmpty then ""
  else url.user ++ (if url.password.isEmpty then "" else ":" ++ url.password) ++ "@"

/-- The host with its port. -/
def hostText (url : Url) : String :=
  match url.host with
  | none => ""
  | some host =>
    "//" ++ url.userText ++ host.text
      ++ (match url.port with
        | some port => ":" ++ String.ofList (digitsOfNatural port)
        | none => "")

/-- The text of a URL. -/
def text (url : Url) : String :=
  url.scheme ++ ":" ++ url.hostText ++ url.path
    ++ (match url.query with
      | some query => "?" ++ query
      | none => "")
    ++ (match url.fragment with
      | some fragment => "#" ++ fragment
      | none => "")

/-- The URL without a user. -/
def withoutUser (url : Url) : Url := { url with user := "", password := "" }

end Url

end VideoScript
