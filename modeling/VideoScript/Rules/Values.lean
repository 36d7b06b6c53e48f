import VideoScript.Finding
import VideoScript.Placeholder.Scan
import VideoScript.Vocabulary

/-!
# Values that the service knows

The members of a document that take one of a few names are looked up in the vocabulary. A value
that is not a text gives an error; a text that is neither accepted nor has a placeholder gives a
warning, with the accepted spelling when only the case is wrong.
-/

set_option autoImplicit false

namespace VideoScript.Rules

open Json Placeholder

/-- The suggestion for a value that is not accepted. -/
def valueSuggestion (kind : Vocabulary) (value : String) : String :=
  let valid := "valid " ++ kind.words ++ " values: " ++ ", ".intercalate kind.alphabetical
  match kind.canonical? value with
  | some known => "did you mean '" ++ known ++ "'? " ++ valid
  | none => valid

/-- The finding for a value of a kind, when there is something wrong with it. -/
def valueFinding? (kind : Vocabulary) (path : Path) (value : Json) : Option Finding :=
  match value with
  | .string s =>
    if kind.accepts s || containsToken s.toList then none
    else
      some <| (Finding.warning .field path.shown
        ("Unknown " ++ kind.words ++ " '" ++ s ++ "'")).suggest (valueSuggestion kind s)
  | _ => some (.error .field path.shown (kind.words ++ " must be a string"))

/-- The finding for a member of a kind, if the member is there. -/
def memberFindings (kind : Vocabulary) (members : Members) (path : Path) (key : String) :
    List Finding :=
  match members.get? key with
  | some value => (valueFinding? kind (path.key key) value).toList
  | none => []

/-- The finding for a member of a kind, if the member is there and is a text. -/
def textMemberFindings (kind : Vocabulary) (members : Members) (path : Path) (key : String) :
    List Finding :=
  match members.get? key with
  | some (.string s) => (valueFinding? kind (path.key key) (.string s)).toList
  | _ => []

/-- The findings for the transitions of a clip. -/
def transitionFindings (clip : Members) (path : Path) : List Finding :=
  match clip.get? "transition" with
  | none => []
  | some (.object sides) =>
    memberFindings .transition sides (path.key "transition") "in"
    ++ memberFindings .transition sides (path.key "transition") "out"
  | some _ =>
    [.error .field (path.key "transition").shown
      "transition must be an object with 'in' and/or 'out'"]

/-- The findings for the values of a clip. -/
def clipValueFindings (clip : Located Members) : List Finding :=
  (match clip.value.get? "asset" with
    | some (.object asset) => textMemberFindings .assetType asset (clip.path.key "asset") "type"
    | _ => [])
  ++ transitionFindings clip.value clip.path
  ++ memberFindings .effect clip.value clip.path "effect"
  ++ memberFindings .filter clip.value clip.path "filter"

/-- The findings for the values of the output settings. -/
def outputValueFindings (output : Located Json) : List Finding :=
  match output.value with
  | .object members =>
    memberFindings .aspectRatio members output.path "aspectRatio"
    ++ memberFindings .aspectRatio members output.path "aspect_ratio"
    ++ textMemberFindings .outputFormat members output.path "format"
  | _ => []

/-- The findings about values with a vocabulary. -/
def values (doc : Document) : List Finding :=
  doc.clips.flatMap clipValueFindings
  ++ match doc.output? with
    | some output => outputValueFindings output
    | none => []

end VideoScript.Rules
