import VideoScript.Text.Ascii

/-!
# The values that a render service knows

Some members of a document take one of a few names. A `Vocabulary` lists the names for one kind of
member; a value is accepted when it is one of them exactly, and `canonical?` finds the name that a
value spells in another case.
-/

set_option autoImplicit false

namespace VideoScript

/-- The kinds of members that take one of a few names. -/
inductive Vocabulary where
  | transition
  | effect
  | filter
  | aspectRatio
  | outputFormat
  | assetType
  deriving DecidableEq, Repr

namespace Vocabulary

/-- The kinds with their names in records. -/
def byName : List (String × Vocabulary) :=
  [("transition", transition), ("effect", effect), ("filter", filter),
   ("aspect_ratio", aspectRatio), ("output_format", outputFormat), ("asset_type", assetType)]

/-- The words for a kind. -/
def words : Vocabulary → String
  | transition => "transition"
  | effect => "effect"
  | filter => "filter"
  | aspectRatio => "aspect ratio"
  | outputFormat => "output format"
  | assetType => "asset type"

/-- The accepted values of a kind. -/
def values : Vocabulary → List String
  | transition =>
    ["fade", "fadeSlow", "fadeFast", "reveal", "revealSlow", "revealFast", "wipeLeft", "wipeRight",
     "wipeLeftFast", "wipeRightFast", "slideLeft", "slideRight", "slideUp", "slideDown",
     "slideLeftFast", "slideRightFast", "slideUpFast", "slideDownFast", "carouselLeft",
     "carouselRight", "carouselUpFast", "shuffleTopRight", "shuffleLeftBottom", "zoom", "zoomSlow",
     "zoomFast"]
  | effect => ["zoomIn", "zoomOut", "kenBurns"]
  | filter => ["boost", "greyscale", "contrast", "muted", "negative", "darken", "lighten"]
  | aspectRatio => ["16:9", "9:16", "1:1", "4:5", "4:3"]
  | outputFormat => ["mp4", "gif", "jpg", "png", "bmp", "mp3"]
  | assetType => ["video", "image", "audio", "text", "title", "html"]

/-- Whether a value is accepted as it stands. -/
def accepts (kind : Vocabulary) (value : String) : Bool := kind.values.contains value

/-- The accepted value that a value spells up to the case of its ASCII letters. -/
def canonical? (kind : Vocabulary) (value : String) : Option String :=
  kind.values.find? fun known => Text.sameIgnoringCase known value

/-- The accepted values in the order of their characters. -/
def alphabetical (kind : Vocabulary) : List String := kind.values.mergeSort fun a b => a ≤ b

end Vocabulary

end VideoScript
