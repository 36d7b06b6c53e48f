import VideoScript.Finding
import VideoScript.Placeholder.Scan

/-!
# Braces that make no placeholder

Each brace problem that the scan of a document found gives one warning at the path of its string.
-/

set_option autoImplicit false

namespace VideoScript.Rules

open Placeholder

/-- The warning for a brace problem. -/
def issueFinding (issue : Issue) : Finding :=
  match issue.problem with
  | .empty =>
    (Finding.warning .placeholder issue.path.shown
      ("empty placeholder '" ++ issue.text ++ "'")).suggest
      "put a field name between the braces or remove them"
  | _ =>
    (Finding.warning .placeholder issue.path.shown
      ("Invalid placeholder syntax: '" ++ issue.text ++ "'")).suggest
      "use the format \x7b\x7bfield\x7d\x7d"

/-- The findings about braces. -/
def markup (scan : Scan) : List Finding := scan.issues.map issueFinding

end VideoScript.Rules
