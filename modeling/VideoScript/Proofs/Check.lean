import VideoScript.Check
import VideoScript.Proofs.Json.WellFormed
import VideoScript.Proofs.Media.Lookup

/-!
# What a passed check guarantees

A text whose check passes writes a document without an error among its findings, a `Sound` one
(`sound_of_passed`). A sound document has a timeline and output settings (`Sound.parts`), and all
its media files are found (`Sound.found`).
-/

set_option autoImplicit false

namespace VideoScript

open Json Disk

/-- No finding about a document is an error. -/
structure Sound (here : Surroundings) (settings : CheckSettings) (baseDir : String)
    (doc : Document) : Prop where
  rules : ∀ f ∈ ruleFindings doc, f.isError = false
  files : ∃ findings, Media.fileFindings here.schedule here.disk settings
    (shelfOf settings baseDir doc) (Media.references doc) = .ok findings ∧
      ∀ f ∈ findings, f.isError = false

variable {here : Surroundings} {settings : CheckSettings} {baseDir : String} {doc : Document}

/-! ## Reports that pass -/

theorem passed_iff {report : Report} : report.passed = true ↔
    ∀ f ∈ report.findings, f.isError = false ∧ (report.strict = true → f.isWarning = false) := by
  unfold Report.passed Report.isFatal
  rw [Bool.not_eq_true', List.any_eq_false]
  refine forall₂_congr fun f _ => ?_
  cases f.isError <;> cases report.strict <;> simp

theorem no_error_of_passed {report : Report} (h : report.passed = true) :
    ∀ f ∈ report.findings, f.isError = false := fun f hf => (passed_iff.1 h f hf).1

/-- The report on a document lists what the rules find and then what is wrong with its files. -/
theorem report_of_checkDocument {report : Report}
    (h : checkDocument here settings doc baseDir = .ok report) :
    ∃ files, Media.fileFindings here.schedule here.disk settings (shelfOf settings baseDir doc)
      (Media.references doc) = .ok files ∧
        report = ⟨ruleFindings doc ++ files, settings.strict⟩ := by
  unfold checkDocument at h
  obtain ⟨files, hfiles, h⟩ := bind_eq_ok h
  cases h
  cases hf : Media.fileFindings here.schedule here.disk settings (shelfOf settings baseDir doc)
      (Media.references doc) with
  | error e =>
    rw [hf] at hfiles
    cases hfiles
  | ok findings =>
    rw [hf] at hfiles
    cases hfiles
    exact ⟨_, rfl, rfl⟩

theorem sound_of_checkDocument {report : Report}
    (h : checkDocument here settings doc baseDir = .ok report) (hp : report.passed = true) :
    Sound here settings baseDir doc := by
  obtain ⟨files, hf, rfl⟩ := report_of_checkDocument h
  have hall := no_error_of_passed hp
  exact ⟨fun f hm => hall f (List.mem_append_left _ hm),
    files, hf, fun f hm => hall f (List.mem_append_right _ hm)⟩

/-- Only a document passes. -/
theorem checkDocument_of_passed {value : Json} {report : Report} (hs : settings.skipChecks = false)
    (h : checkJson here settings value baseDir = .ok report) (hp : report.passed = true) :
    ∃ doc, Document.ofJson? value = some doc ∧
      checkDocument here settings doc baseDir = .ok report := by
  unfold checkJson at h
  rw [hs, if_neg (by decide)] at h
  split at h
  · cases h
    exact absurd rfl (Finding.not_error_of_mem (no_error_of_passed hp) List.mem_cons_self)
  · exact ⟨_, ‹_›, h⟩

theorem eq_toJson_of_ofJson? {value : Json} (h : Document.ofJson? value = some doc) :
    value = doc.toJson := by
  cases value <;> cases h
  rfl

/-- A text whose check passes writes a sound document. -/
theorem sound_of_passed {text : String} {report : Report} (hs : settings.skipChecks = false)
    (h : checkText here settings text baseDir = .ok report) (hp : report.passed = true) :
    ∃ doc, parse text = .ok doc.toJson ∧ Sound here settings baseDir doc := by
  unfold checkText at h
  split at h
  · rename_i value hparse
    obtain ⟨doc, hdoc, h⟩ := checkDocument_of_passed hs h hp
    exact ⟨doc, eq_toJson_of_ofJson? hdoc ▸ hparse, sound_of_checkDocument h hp⟩
  · cases h
    exact absurd rfl (Finding.not_error_of_mem (no_error_of_passed hp) List.mem_cons_self)

/-! ## Sound documents -/

namespace Sound

theorem layout (h : Sound here settings baseDir doc) :
    ∀ f ∈ Rules.layout doc, f.isError = false := fun f hf =>
  h.rules f (List.mem_append_left _ (List.mem_append_left _ (List.mem_append_left _ hf)))

theorem coverage (h : Sound here settings baseDir doc) :
    ∀ f ∈ Rules.coverage doc (Placeholder.scan doc), f.isError = false := fun f hf =>
  h.rules f (List.mem_append_left _ (List.mem_append_right _ hf))

/-- A sound document has a timeline and output settings. -/
theorem parts (h : Sound here settings baseDir doc) :
    ∃ timeline output, doc.timeline? = some timeline ∧ doc.output? = some output := by
  have hl := h.layout
  unfold Rules.layout at hl
  cases ho : doc.output? with
  | none =>
    rw [ho] at hl
    exact absurd rfl
      (Finding.not_error_of_mem hl (List.mem_append_right _ List.mem_cons_self))
  | some output =>
    cases ht : doc.timeline? with
    | some timeline => exact ⟨timeline, output, rfl, rfl⟩
    | none =>
      have hbody : ∀ f ∈ Rules.bodyFindings doc, f.isError = false := fun f hf =>
        hl f (List.mem_append_left _ hf)
      unfold Rules.bodyFindings at hbody
      rw [ht] at hbody
      split at hbody
      · exact absurd rfl (Finding.not_error_of_mem hbody List.mem_cons_self)
      · exact absurd rfl (Finding.not_error_of_mem hbody List.mem_cons_self)

/-- All media files of a sound document are found. -/
theorem found (h : Sound here settings baseDir doc) (hf : settings.skipFiles = false) :
    ∃ paths : List String,
      ((Media.references doc).map (·.raw)).eraseDups.map (fun raw =>
        Media.probe here.disk ((shelfOf settings baseDir doc).candidates raw)) =
        paths.map fun path => .ok (.found path) := by
  obtain ⟨findings, hfindings, hno⟩ := h.files
  rw [Media.fileFindings_eq _ _ _ _ hf] at hfindings
  exact Media.found_of_no_error hfindings hno

/-- A file that can be opened stands at one of the places of every reference of a sound
document. -/
theorem readable (h : Sound here settings baseDir doc) (hf : settings.skipFiles = false)
    {r : Media.Reference} (hr : r ∈ Media.references doc) :
    ∃ place ∈ (shelfOf settings baseDir doc).candidates r.raw, Media.Readable here.disk place := by
  obtain ⟨paths, hpaths⟩ := h.found hf
  have hm : r.raw ∈ ((Media.references doc).map (·.raw)).eraseDups :=
    List.mem_eraseDups.2 (List.mem_map_of_mem hr)
  have hprobe := hpaths ▸ List.mem_map_of_mem hm
  obtain ⟨place, -, hplace⟩ := List.mem_map.1 hprobe
  obtain ⟨before, after, hplaces, -, hfile⟩ := Media.split_of_found hplace.symm
  exact ⟨place, by simp [hplaces], hfile⟩

end Sound

end VideoScript
