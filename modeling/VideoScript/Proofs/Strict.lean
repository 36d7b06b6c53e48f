import VideoScript.Proofs.Check
import VideoScript.Proofs.Media.Sources
import VideoScript.Proofs.Placeholder.Scan
import VideoScript.Proofs.Rules.Coverage

/-!
# What a strict check guarantees

A strict check counts warnings, so a document that passes has no brace problem
(`issues_of_strict`). Then a string with an opening brace has a placeholder (`token_of_hasOpening`),
so that no string slips past the look-up of files by merely looking like one. Together with what the
merge rule and the look-up guarantee for sound documents this gives `strict_pass_sound`: every
placeholder has its entry, and every source of the timeline is accounted for.
-/

set_option autoImplicit false

namespace VideoScript

open Json Placeholder Text

variable {here : Surroundings} {settings : CheckSettings} {baseDir : String} {doc : Document}

/-! ## Documents without brace problems -/

theorem isWarning_issueFinding (issue : Issue) : (Rules.issueFinding issue).isWarning = true := by
  unfold Rules.issueFinding
  split <;> rfl

theorem issues_of_markup {s : Scan} (h : ∀ f ∈ Rules.markup s, f.isWarning = false) :
    s.issues = [] := by
  rw [List.eq_nil_iff_forall_not_mem]
  intro issue hi
  have hno := h _ (List.mem_map_of_mem hi)
  rw [isWarning_issueFinding] at hno
  cases hno

theorem issues_of_strict {report : Report}
    (h : checkDocument here settings doc baseDir = .ok report) (hp : report.passed = true)
    (hs : settings.strict = true) : (scan doc).issues = [] := by
  obtain ⟨files, -, rfl⟩ := report_of_checkDocument h
  refine issues_of_markup fun f hf => (passed_iff.1 hp f ?_).2 hs
  exact List.mem_append_left _
    (List.mem_append_left _ (List.mem_append_left _ (List.mem_append_right _ hf)))

/-- Without brace problems, only strings with placeholders have opening braces. -/
theorem token_of_hasOpening (hi : (scan doc).issues = []) {leaf : Leaf}
    (hl : leaf ∈ scannedLeaves doc) (hk : leaf.path.finalKey? = some "src")
    (ho : Media.hasOpening (trimChars leaf.text.toList) = true) :
    ∃ token, .token token ∈ pieces (trimChars leaf.text.toList) := by
  have hne : pieces leaf.text.toList ≠ [] := fun h => by
    obtain ⟨before, after, hs, -⟩ := exists_trimChars leaf.text.toList
    refine (pieces_eq_nil_iff.1 h).1 ?_
    rw [hs]
    exact List.mem_append_right _ (List.mem_append_left _ (Media.mem_of_hasOpening ho))
  obtain ⟨piece, hm⟩ := List.exists_mem_of_ne_nil _ hne
  cases piece with
  | token token => exact ⟨token, token_mem_trimChars_iff.2 hm⟩
  | problem kind text =>
    -- only under the key of a style sheet would the problem not count
    have hissue := mem_issues hl hm (by simp [counts, hk])
    rw [hi] at hissue
    cases hissue

/-! ## Placeholders and their entries -/

theorem Sound.covered (h : Sound here settings baseDir doc) {leaf : Leaf}
    (hl : leaf ∈ scannedLeaves doc) {token : List Char}
    (ht : .token token ∈ pieces leaf.text.toList) :
    ∃ entry ∈ doc.mergeEntries, ∃ find replace, Rules.IsEntry entry find replace ∧
      trimChars find.toList = token := by
  obtain ⟨entry, hm, hn⟩ := Rules.exists_entry_of_coverage h.coverage (mem_occurrences hl ht)
  obtain ⟨find, replace, he⟩ := Rules.complete_of_coverage h.coverage hm
  exact ⟨entry, hm, find, replace, he, String.ofList_injective (he.trim_find hn)⟩

/-! ## Strict checks -/

/-- A tree with one file. -/
def clipTree : FileTree :=
  ⟨[(["media"], .directory), (["media", "a.bin"], .file .empty)], "/"⟩

/-- A template with a source for each way in which sources are given. -/
def sourcedTemplate : Json :=
  let clip : Json := .object
    [("asset", .object [("type", .string "video"), ("src", .string " {{ CLIP }}")]),
     ("start", .string "auto"), ("length", .string "{{LENGTH}}")]
  .object
    [("template", .object [("timeline", .object
      [("soundtrack", .object [("src", .string "https://sounds/{{SONG}}.mp3")]),
       ("font", .object [("src", .string "file://media/a.bin")]),
       ("tracks", .array [.object [("clips", .array [clip])]])])]),
     ("output", .object [("format", .string "mp4")]),
     ("merge", .array
       [.object [("find", .string "SONG"), ("replace", .string "theme")],
        .object [("find", .string "CLIP "), ("replace", .string "media/a.bin ")],
        .object [("find", .string "LENGTH"), ("replace", .string "4")]])]

/-- The settings of a strict check. -/
def strictSettings : CheckSettings := { CheckSettings.standard with strict := true }

/-- **A strict check that passes keeps its word.** Every placeholder outside the merge arrays has a
complete entry of its name, and every source of the timeline is put together when the video is
rendered or is at hand: it is a URL of another machine, or a file that can be opened stands at one
of the places of its path. -/
theorem strict_pass_sound {value : Json} {report : Report} (hs : settings.strict = true)
    (hc : settings.skipChecks = false) (hf : settings.skipFiles = false)
    (h : checkJson here settings value baseDir = .ok report) (hp : report.passed = true) :
    ∃ doc timeline, Document.ofJson? value = some doc ∧ doc.timeline? = some timeline ∧
      (∀ leaf ∈ leaves value, inMerge leaf.path = false →
        ∀ token, .token token ∈ pieces leaf.text.toList →
          ∃ entry ∈ doc.mergeEntries, ∃ find replace, Rules.IsEntry entry find replace ∧
            trimChars find.toList = token) ∧
      ∀ leaf ∈ leavesAt doc.timelinePath timeline, leaf.path.finalKey? = some "src" →
        trimChars leaf.text.toList ≠ [] →
          Media.Sourced here.disk (shelfOf settings baseDir doc) doc.mergeEntries
            (trimChars leaf.text.toList) := by
  obtain ⟨doc, hdoc, h⟩ := checkDocument_of_passed hc h hp
  have hsound := sound_of_checkDocument h hp
  have hissues := issues_of_strict h hp hs
  obtain ⟨timeline, -, ht, -⟩ := hsound.parts
  refine ⟨doc, timeline, hdoc, ht, fun leaf hl hm token htoken => ?_, fun leaf hl hk hne => ?_⟩
  · refine hsound.covered ?_ htoken
    rw [scannedLeaves_eq, List.mem_filter, ← eq_toJson_of_ofJson? hdoc, hm]
    exact ⟨hl, rfl⟩
  · exact Media.sourced_of_found (fun r => hsound.readable hf) ht hl hk hne
      (token_of_hasOpening hissues (timelineLeaves_subset ht hl) hk)

theorem strict_pass_sound_template :
    let here : Surroundings := .ofTree clipTree
    let report : Report := ⟨[], true⟩
    strictSettings.strict = true ∧ strictSettings.skipChecks = false ∧
      strictSettings.skipFiles = false ∧
      checkJson here strictSettings sourcedTemplate "/" = .ok report ∧ report.passed = true ∧
      ∃ doc timeline, Document.ofJson? sourcedTemplate = some doc ∧
        doc.timeline? = some timeline ∧
        (∀ leaf ∈ leaves sourcedTemplate, inMerge leaf.path = false →
          ∀ token, .token token ∈ pieces leaf.text.toList →
            ∃ entry ∈ doc.mergeEntries, ∃ find replace, Rules.IsEntry entry find replace ∧
              trimChars find.toList = token) ∧
        ∀ leaf ∈ leavesAt doc.timelinePath timeline, leaf.path.finalKey? = some "src" →
          trimChars leaf.text.toList ≠ [] →
            Media.Sourced here.disk (shelfOf strictSettings "/" doc) doc.mergeEntries
              (trimChars leaf.text.toList) := by
  have h : checkJson (.ofTree clipTree) strictSettings sourcedTemplate "/" = .ok ⟨[], true⟩ := by
    decide +kernel
  exact ⟨rfl, rfl, rfl, h, rfl, strict_pass_sound rfl rfl rfl h rfl⟩

end VideoScript
