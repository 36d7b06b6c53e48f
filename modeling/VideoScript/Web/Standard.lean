import VideoScript.Web.Library

/-!
# The library that the program runs with

URLs are read as `Url.parse` reads them. A redirect that another answer stands elsewhere is followed
by asking for it there; one that the place has moved is followed by doing there what was asked. A
body that is no text is refused.
-/

set_option autoImplicit false

namespace VideoScript

open Web

namespace Url

/-- The text of a location that stands without a scheme at a URL. -/
def completed (base : Url) (location : List Char) : String :=
  let start := base.scheme ++ ":"
  let host := start ++ base.hostText
  let query := match base.query with
    | some query => "?" ++ query
    | none => ""
  let before := match location with
    | '/' :: '/' :: _ => start
    | '/' :: _ => host
    | '?' :: _ => host ++ base.path
    | '#' :: _ => host ++ base.path ++ query
    | [] => host ++ base.path ++ query
    | _ => host ++ .ofList (base.path.toList.reverse.dropWhile (· ≠ '/')).reverse
  before ++ .ofList location

/-- The URL of a location as seen from a URL. -/
def locate? (base : Url) (location : String) : Option Url :=
  match parse location with
  | .ok url => some url
  | .error .noScheme => (parse (base.completed (counting location.toList))).toOption
  | .error _ => none

end Url

/-- Whether a status tells that an answer stands elsewhere. -/
def isElsewhere (status : Nat) : Bool := [301, 302, 303].contains status

/-- Whether a status tells that the place itself has moved. -/
def hasMoved (status : Nat) : Bool := [307, 308].contains status

/-- The message that follows one whose answer has a status and names a location. -/
def redirected? (m : Message) (status : Nat) (location : String) : Option Message :=
  if isElsewhere status then
    (m.url.locate? location).map fun url => { m with method := .get, url, body := .empty }
  else if hasMoved status then (m.url.locate? location).map fun url => { m with url }
  else none

theorem redirected?_eq_some {m m' : Message} {status : Nat} {location : String}
    (h : redirected? m status location = some m') : (m'.key = m.key ∧ m'.accept = m.accept) ∧
      ((m'.method = m.method ∧ m'.body = m.body) ∨ (m'.method = .get ∧ m'.body = .empty)) := by
  unfold redirected? at h
  split at h
  · obtain ⟨url, -, rfl⟩ := Option.map_eq_some_iff.1 h
    exact ⟨⟨rfl, rfl⟩, .inr ⟨rfl, rfl⟩⟩
  · split at h
    · obtain ⟨url, -, rfl⟩ := Option.map_eq_some_iff.1 h
      exact ⟨⟨rfl, rfl⟩, .inl ⟨rfl, rfl⟩⟩
    · cases h

/-- The wording for a body whose bytes encode no text. -/
def notText : String := "invalid unicode code point"

instance standardLibrary : Library where
  parse := Url.parse
  readBytes _ _ := .error notText
  maxRedirects := 10
  redirect? := redirected?
  key_redirect _ _ _ _ h := (redirected?_eq_some h).1.1
  accept_redirect _ _ _ _ h := (redirected?_eq_some h).1.2
  asks_redirect _ _ _ _ h := (redirected?_eq_some h).2

end VideoScript
