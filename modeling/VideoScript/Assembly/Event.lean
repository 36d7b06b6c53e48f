import VideoScript.Render.Status
import VideoScript.Text.Ascii

/-!
# What an assembly tells while it runs
-/

set_option autoImplicit false

namespace VideoScript.Assembly

/-- A step of an assembly that has been taken. -/
inductive Event where
  | validated (warnings : Nat)
  | validationSkipped
  /-- The upload of the `index`th of `total` files starts. -/
  | uploading (index total : Nat) (path : String)
  | uploaded (path url : String)
  | submitted (render : String)
  /-- The state of a render is not what it was before. -/
  | status (render : String) (state : Render.State)
  | downloading (url : String)
  | finished (path : String) (bytes : Nat)
  deriving DecidableEq, Repr

/-- The words for an event. -/
def Event.text : Event → String
  | .validated 0 => "script validated"
  | .validated warnings => s!"script validated with {warnings} warning(s)"
  | .validationSkipped => "validation skipped"
  | .uploading index total path => s!"[{index}/{total}] uploading {path}"
  | .uploaded path _ => s!"uploaded {path}"
  | .submitted render => s!"render {render} queued"
  | .status render state => s!"render {render}: {state.name}"
  | .downloading url => s!"downloading {url}"
  | .finished path bytes => s!"saved {path} ({bytes} bytes)"

end VideoScript.Assembly
