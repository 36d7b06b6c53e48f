import VideoScript.Command.Run
import VideoScript.Proofs.Json.Printed

/-!
# Reports read back

A report that is shown as a record reads back as what it was made from. A finding is written without
the parts that it lacks, and those come back as lacking (`Finding.ofJson_toJson`). A record is a
plain value, so its text is parsed as the record (`Report.plain_summary`, `parse_pretty`), and the
verdict in it follows from the numbers of errors and warnings (`Report.passed_iff`).
-/

set_option autoImplicit false

namespace VideoScript

open Json

/-! ## Findings -/

namespace Finding

theorem asChoice_severity (severity : Severity) :
    (Json.string severity.name).asChoice Severity.byName = .ok severity := by
  cases severity <;> rfl

theorem asChoice_category (category : Category) :
    (Json.string category.name).asChoice Category.byName = .ok category := by
  cases category <;> rfl

theorem asTexts_array (texts : List String) :
    (Json.array (texts.map .string)).asTexts = .ok texts := by
  show (texts.map Json.string).mapM asText = _
  rw [mapM_eq_ok_iff, List.map_map]
  rfl

/-- The parts that every record has are read first. -/
theorem foldlM_read (severity : Severity) (category : Category) (field message : String)
    (rest : Members) :
    (("severity", .string severity.name) :: ("category", .string category.name) ::
      ("field", .string field) :: ("message", .string message) :: rest : Members).foldlM
        (fun draft (name, value) => Draft.read draft name value) Draft.blank =
      rest.foldlM (fun draft (name, value) => Draft.read draft name value)
        ⟨some severity, some category, some field, some message, none, []⟩ := by
  simp only [List.foldlM_cons, Draft.read, asChoice_severity, asChoice_category, asText]
  rfl

/-- The record of a finding reads back as the finding. -/
theorem ofJson_toJson (f : Finding) : ofJson f.toJson = .ok f := by
  obtain ⟨severity, category, field, message, suggestion, locations⟩ := f
  unfold toJson ofJson
  simp only [List.cons_append, List.nil_append, foldlM_read]
  cases suggestion <;> cases locations <;>
    simp only [List.isEmpty_nil, List.isEmpty_cons, if_true, if_false, Bool.false_eq_true,
      List.nil_append, List.append_nil, List.cons_append, List.foldlM_cons, List.foldlM_nil,
      Draft.read, asTexts_array] <;>
    rfl

/-- The records of findings read back as the findings. -/
theorem listOfJson_map (findings : List Finding) :
    listOfJson (.array (findings.map toJson)) = .ok findings := by
  show (findings.map toJson).mapM ofJson = _
  rw [mapM_eq_ok_iff, List.map_map]
  exact List.map_congr_left fun f _ => ofJson_toJson f

theorem plain_toJson (depth : Nat) (f : Finding) : Plain id (depth + 2) f.toJson := by
  obtain ⟨severity, category, field, message, suggestion, locations⟩ := f
  unfold toJson
  refine .object ?_ ?_
  · cases suggestion <;> cases locations <;> simp
  · simp only [List.forall_mem_append, List.forall_mem_cons]
    refine ⟨⟨⟨.string, .string, .string, .string, by simp⟩, ?_⟩, ?_⟩
    · cases suggestion with
      | none => simp
      | some text => exact List.forall_mem_singleton.2 .string
    · cases locations with
      | nil => simp
      | cons place places =>
        exact List.forall_mem_singleton.2 (.array (List.forall_mem_map.2 fun _ _ => .string))

end Finding

/-! ## Reports -/

namespace Report

theorem count_error (report : Report) :
    report.count .error = report.findings.countP Finding.isError := by
  rw [List.countP_eq_length_filter]
  rfl

theorem count_warning (report : Report) :
    report.count .warning = report.findings.countP Finding.isWarning := by
  rw [List.countP_eq_length_filter]
  rfl

theorem count_le (report : Report) (severity : Severity) :
    report.count severity ≤ report.findings.length := List.length_filter_le _ _

/-- A run passes when it has no errors and, in strict mode, no warnings. -/
theorem passed_iff (report : Report) : report.passed = true ↔
    report.findings.countP Finding.isError = 0 ∧
      (report.strict = false ∨ report.findings.countP Finding.isWarning = 0) := by
  rw [passed, Bool.not_eq_true', List.any_eq_false, List.countP_eq_zero, List.countP_eq_zero]
  cases hs : report.strict <;> simp [isFatal, forall_and]

theorem plain_summary (report : Report) (script : String)
    (h : report.findings.length ≤ Text.maxWord) : Plain id depthLimit (report.summary script) := by
  have hcount (severity : Severity) : report.count severity ≤ Text.maxWord :=
    Nat.le_trans (report.count_le severity) h
  show Plain id (126 + 1) _
  refine .object (by simp) ?_
  simp only [List.forall_mem_cons]
  refine ⟨.string, .natural (hcount .error), .natural (hcount .warning), .bool, .bool, .string, ?_,
    by simp⟩
  exact .array (List.forall_mem_map.2 fun f _ => f.plain_toJson 123)

end Report

/-! ## What is shown -/

/-- A record says what a report on a script says. -/
structure Tells (record : Members) (script : String) (findings : List Finding) (strict : Bool) :
    Prop where
  keys : record.map (·.1) =
    ["script", "errors", "warnings", "passed", "strict", "stage", "findings"]
  script : record.get? "script" = some (.string script)
  errors : record.get? "errors" = some (.ofNat (findings.countP Finding.isError))
  warnings : record.get? "warnings" = some (.ofNat (findings.countP Finding.isWarning))
  verdict : ∃ passed, record.get? "passed" = some (.bool passed) ∧
    (passed = true ↔ findings.countP Finding.isError = 0 ∧
      (strict = false ∨ findings.countP Finding.isWarning = 0)) ∧
    record.get? "stage" = some (.string (if passed then "passed" else "failed"))
  strict : record.get? "strict" = some (.bool strict)
  findings : ∃ value, record.get? "findings" = some value ∧ Finding.listOfJson value = .ok findings

theorem Report.tells_summary (report : Report) (script : String) :
    ∃ record, report.summary script = .object record ∧
      Tells record script report.findings report.strict := by
  refine ⟨_, rfl, rfl, rfl, ?_, ?_, ⟨report.passed, rfl, report.passed_iff, rfl⟩, rfl,
    ⟨_, rfl, Finding.listOfJson_map report.findings⟩⟩
  · rw [← count_error]
    rfl
  · rw [← count_warning]
    rfl

/-- **A report that is shown as a record reads back as the report.** Its text is parsed as one object,
which gives the script, the numbers of errors and warnings, the verdict that follows from them, and
under `findings` a value that reads as the findings themselves, in their order. The numbers are
written whole, and a list in memory has no more items than a word counts. -/
theorem Command.shown_report_reads_back (c : CheckCommand) (verbose : Bool) (report : Report)
    (hquiet : c.quiet = false) (hform : c.form = .json)
    (hlength : report.findings.length ≤ Text.maxWord) :
    ∃ text record, c.show verbose report = [text] ∧ Json.parse text = .ok (Json.object record) ∧
      Tells record c.script report.findings report.strict := by
  obtain ⟨record, hrecord, htells⟩ := report.tells_summary c.script
  refine ⟨(report.summary c.script).pretty, record, ?_, ?_, htells⟩
  · rw [CheckCommand.show, hquiet, hform]
    rfl
  · rw [parse_pretty (report.plain_summary c.script hlength), mapNumbers_id, hrecord]

theorem Command.shown_report_reads_back_quoted :
    let c : CheckCommand :=
      ⟨"s.json", true, false, false, false, none, none, none, none, false, false, .json⟩
    let found : Finding := ⟨.warning, .merge, "a.\"b\"", "line\nline\x01", none, ["a", "\\"]⟩
    c.quiet = false ∧ c.form = .json ∧ [found].length ≤ Text.maxWord ∧
      ∃ text record, c.show false ⟨[found], true⟩ = [text] ∧
        Json.parse text = .ok (Json.object record) ∧ Tells record "s.json" [found] true := by
  intro c found
  have hlength : [found].length ≤ Text.maxWord := by decide
  exact ⟨rfl, rfl, hlength, Command.shown_report_reads_back c false ⟨[found], true⟩ rfl rfl hlength⟩

end VideoScript
