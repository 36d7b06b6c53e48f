import VideoScript.Finding

/-!
# Reports

A report holds the findings of one run in order. It passes when no finding is an error and, in
strict mode, none is a warning; information never counts.

A report is shown as text, one finding after the other with a verdict at the end, or as a JSON
record. The text leaves information out unless it is asked for; the record never does.
-/

set_option autoImplicit false

namespace VideoScript

open Json

/-- The findings of a run, and whether warnings count against it. -/
structure Report where
  findings : List Finding
  strict : Bool
  deriving DecidableEq, Repr

namespace Report

/-- Whether a finding counts against the run. -/
def isFatal (strict : Bool) (f : Finding) : Bool := f.isError || (strict && f.isWarning)

/-- Whether the run passes. -/
def passed (report : Report) : Bool := !report.findings.any (isFatal report.strict)

/-- The name of the verdict in records. -/
def stage (report : Report) : String := if report.passed then "passed" else "failed"

/-- The errors. -/
def errors (report : Report) : List Finding := report.findings.filter Finding.isError

/-- The warnings. -/
def warnings (report : Report) : List Finding := report.findings.filter Finding.isWarning

/-- How many findings have a severity. -/
def count (report : Report) (severity : Severity) : Nat :=
  (report.findings.filter fun f => f.severity = severity).length

/-- The report as a record. -/
def toJson (report : Report) : Json :=
  .object
    [("passed", .bool report.passed), ("strict", .bool report.strict),
     ("stage", .string report.stage),
     ("findings", .array (report.findings.map Finding.toJson))]

/-! ## Showing a report -/

/-- A text with blanks after it up to a width. -/
def padded (width : Nat) (s : String) : String :=
  s ++ .ofList (List.replicate (width - s.length) ' ')

/-- The lines for a finding: what and where, then its suggestion and, when there is more than one,
its places. -/
def findingLines (f : Finding) : List String :=
  ("  " ++ padded 7 f.severity.label ++ " [" ++ f.category.label ++ "] " ++ f.field ++ "  "
    ++ f.message)
  :: (match f.suggestion with
    | some suggestion => ["          hint: " ++ suggestion]
    | none => [])
  ++ (if 1 < f.locations.length then f.locations.map ("          at " ++ ·) else [])

/-- The lines for the findings; information only when `verbose`. -/
def bodyLines (report : Report) (verbose : Bool) : List String :=
  (report.findings.filter fun f => verbose || f.severity ≠ .info).flatMap findingLines

/-- The line with the verdict on a script. -/
def verdict (report : Report) (script : String) : String :=
  (if report.passed then "PASS" else "FAIL") ++ " " ++ script ++ "  "
    ++ s!"{report.count .error} error(s), {report.count .warning} warning(s)"
    ++ (if report.strict then " (strict)" else "")

/-- The lines that show a report on a script. -/
def lines (report : Report) (script : String) (verbose : Bool) : List String :=
  report.bodyLines verbose ++ [report.verdict script]

/-- The record that shows a report on a script. -/
def summary (report : Report) (script : String) : Json :=
  .object
    [("script", .string script), ("errors", .ofNat (report.count .error)),
     ("warnings", .ofNat (report.count .warning)), ("passed", .bool report.passed),
     ("strict", .bool report.strict), ("stage", .string report.stage),
     ("findings", .array (report.findings.map Finding.toJson))]

end Report

end VideoScript
