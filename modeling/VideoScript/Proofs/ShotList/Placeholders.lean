import VideoScript.Proofs.ShotList.Check
import VideoScript.Proofs.ShotList.Shapes

/-!
# Sources of a template and their entries

A source of a template is the path of a media file in braces, and the merge array has one entry that
is named after the path. What is read between the braces is that path without blanks at its ends, so
the source finds its entry, and no other one, exactly when the path does not close the placeholder
itself (`sources_matched_iff`). A path with a closing brace is written all the same; its source is
no placeholder, and its entry goes unused (`brace_in_name_unmatched`).

* `soleToken?_source_iff`: what a path in braces is as a placeholder.
* `Plan.count_entryNames`: exactly one entry is named after a media file.
-/

set_option autoImplicit false

namespace VideoScript.ShotList

open Json Text Placeholder Rules

/-! ## Paths in braces -/

/-- A path in braces is one placeholder exactly when no closing brace stands in the path. -/
theorem soleToken?_source_iff {path : String} {token : List Char} :
    soleToken? (Mode.template.source path).toList = some token ↔
      '}' ∉ path.toList ∧ trimChars path.toList = token ∧ token ≠ [] := by
  rw [toList_braced, soleToken?_eq_some_iff]
  constructor
  · rintro ⟨body, hbody, hclosed, htoken, hne⟩
    have heq : body = path.toList := by simpa using hbody.symm
    subst heq
    exact ⟨hclosed, htoken, hne⟩
  · rintro ⟨hclosed, htoken, hne⟩
    exact ⟨path.toList, rfl, hclosed, htoken, hne⟩

/-- The names of entries without blanks at their ends. -/
def entryNames (entries : List Json) : List (Option String) :=
  entries.map fun entry => (entryName? entry).map trim

/-- A text is one whole placeholder, and exactly one entry is named after it. -/
def IsMatched (entries : List Json) (text : String) : Prop :=
  ∃ token, soleToken? text.toList = some token ∧
    (entryNames entries).count (some (.ofList token)) = 1

namespace Plan

variable {plan : Plan} {file : String}

theorem entryNames_entries (plan : Plan) :
    entryNames plan.entries = plan.mediaFiles.eraseDups.map fun path => some (trim path) := by
  rw [entryNames, entries, List.map_map, distinctMedia_eq]
  rfl

/-- Exactly one entry is named after a media file. -/
theorem count_entryNames (ht : plan.Tidy) (hf : file ∈ plan.mediaFiles) :
    (entryNames plan.entries).count (some (trim file)) = 1 := by
  have hinj : ∀ path ∈ plan.mediaFiles.eraseDups, ∀ path' ∈ plan.mediaFiles.eraseDups,
      some (trim path) = some (trim path') → path = path' := by
    intro path hp path' hp' h
    exact ht.eq_of_trimChars (List.mem_eraseDups.1 hp) (List.mem_eraseDups.1 hp')
      (String.ofList_injective (Option.some.inj h))
  rw [entryNames_entries]
  exact List.count_eq_one_of_mem ((nodup_eraseDups _).map_on hinj)
    (List.mem_map.2 ⟨file, List.mem_eraseDups.2 hf, rfl⟩)

/-- The source of a media file is matched exactly when no closing brace stands in its path. -/
theorem isMatched_source_iff (ht : plan.Tidy) (hf : file ∈ plan.mediaFiles) :
    IsMatched plan.entries (Mode.template.source file) ↔ '}' ∉ file.toList := by
  constructor
  · rintro ⟨token, htoken, -⟩
    exact (soleToken?_source_iff.1 htoken).1
  · intro hclosed
    exact ⟨trimChars file.toList,
      soleToken?_source_iff.2 ⟨hclosed, rfl, ht.trimChars_ne_nil hf⟩, count_entryNames ht hf⟩

end Plan

/-! ## The sources of a template -/

theorem sources_template (path : Path) (plan : Plan) :
    sourcesAt path (plan.timeline .template) =
      (sourcesAt path (plan.timeline .legacy)).map Mode.template.source := by
  rw [timeline_template plan path, sourcesAt, leavesAt_rewriteAt, List.filterMap_map, sourcesAt,
    List.map_filterMap]
  refine List.filterMap_congr fun leaf _ => ?_
  rw [Function.comp_apply]
  unfold sourceText? braceSource
  dsimp only
  split <;> rfl

/-- The media files of a text in the order of the timeline: the music, then those of the rows. -/
def timelineFiles (text : List Char) (dir : String) : List String :=
  musicFile text dir ++ rowFiles text dir

theorem mem_timelineFiles {text : List Char} {plan : Plan} (h : readPlan text = .ok plan)
    {file : String} :
    file ∈ timelineFiles text plan.resourcesDir ↔ file ∈ plan.mediaFiles := by
  rw [timelineFiles, musicFile_eq h, rowFiles_eq h, Plan.mediaFiles, List.mem_append,
    List.mem_append, or_comm]

/-- **Sources of a template and their entries.** The sources of the timeline of a template are the
media files of the text in braces, in order. Each of them is one whole placeholder that exactly one
merge entry is named after, exactly when no closing brace stands in the path of its file. -/
theorem sources_matched_iff {text : String} {c : Conversion}
    (h : convert text .template = .ok c) :
    ∃ doc timeline, Document.ofJson? c.document = some doc ∧ doc.timeline? = some timeline ∧
      sourcesAt doc.timelinePath timeline =
        (timelineFiles text.toList c.resourcesDir).map Mode.template.source ∧
      ∀ file ∈ timelineFiles text.toList c.resourcesDir,
        (IsMatched doc.mergeEntries (Mode.template.source file) ↔ '}' ∉ file.toList) := by
  obtain ⟨plan, hplan, rfl⟩ := readPlan_of_convert h
  have hdoc : Document.ofJson? (plan.document .template) = some (plan.inDocument .template id) := by
    have := plan.ofJson?_document .template id
    rwa [mapNumbers_id] at this
  have htimeline : (plan.inDocument .template id).timeline? = some (plan.timeline .template) := by
    rw [Plan.timeline?_inDocument, mapNumbers_id]
  have hentries : (plan.inDocument .template id).mergeEntries = plan.entries := by
    rw [Document.mergeEntries, Plan.merge?_template]
    rfl
  refine ⟨plan.inDocument .template id, plan.timeline .template, hdoc, htimeline, ?_,
    fun file hfile => ?_⟩
  · rw [Plan.timelinePath_inDocument, sources_template, sources_timeline]
    show _ = (timelineFiles text.toList plan.resourcesDir).map _
    rw [timelineFiles, musicFile_eq hplan, rowFiles_eq hplan]
  · rw [hentries]
    exact Plan.isMatched_source_iff (tidy_of_readPlan hplan) ((mem_timelineFiles hplan).1 hfile)

/-- A shot list with a row for a file. -/
def listOf (name : String) : String :=
  "## name: Demo\n## resources_dir: m\n| # | Resource |\n| 1 | " ++ name ++
    " | | 3s | | | | | | |"

/-- An opening brace in the name of a file does no harm. -/
theorem sources_matched_iff_opening :
    ∃ c, convert (listOf "a\x7b.mp4") .template = .ok c ∧
      "m/a\x7b.mp4" ∈ timelineFiles (listOf "a\x7b.mp4").toList c.resourcesDir ∧
      ∃ doc timeline, Document.ofJson? c.document = some doc ∧ doc.timeline? = some timeline ∧
        sourcesAt doc.timelinePath timeline =
          (timelineFiles (listOf "a\x7b.mp4").toList c.resourcesDir).map Mode.template.source ∧
        IsMatched doc.mergeEntries (Mode.template.source "m/a\x7b.mp4") := by
  have hresult : ((convert (listOf "a\x7b.mp4") .template).toOption.map fun c =>
      timelineFiles (listOf "a\x7b.mp4").toList c.resourcesDir) =
        some ["m/a\x7b.mp4"] := by decide +kernel
  obtain ⟨c, hc, hfiles⟩ := Option.map_eq_some_iff.1 hresult
  rw [toOption_eq_some_iff] at hc
  have hmem : "m/a\x7b.mp4" ∈ timelineFiles (listOf "a\x7b.mp4").toList c.resourcesDir := by
    rw [hfiles]
    exact List.mem_cons_self
  obtain ⟨doc, timeline, hdoc, htimeline, hsources, hmatched⟩ := sources_matched_iff hc
  exact ⟨c, hc, hmem, doc, timeline, hdoc, htimeline, hsources, (hmatched _ hmem).2 (by decide)⟩

/-- A closing brace in the name of a file leaves a source that is no placeholder. -/
theorem brace_in_name_unmatched :
    ∃ c doc timeline, convert (listOf "a\x7d.mp4") .template = .ok c ∧
      Document.ofJson? c.document = some doc ∧ doc.timeline? = some timeline ∧
      ∃ source ∈ sourcesAt doc.timelinePath timeline,
        soleToken? source.toList = none ∧ ¬ IsMatched doc.mergeEntries source := by
  have hresult : ((convert (listOf "a\x7d.mp4") .template).toOption.bind fun c =>
      (Document.ofJson? c.document).bind fun doc => doc.timeline?.map fun timeline =>
        (sourcesAt doc.timelinePath timeline).any fun source =>
          (soleToken? source.toList).isNone) = some true := by decide +kernel
  obtain ⟨c, hc, hresult⟩ := Option.bind_eq_some_iff.1 hresult
  obtain ⟨doc, hdoc, hresult⟩ := Option.bind_eq_some_iff.1 hresult
  obtain ⟨timeline, htimeline, hany⟩ := Option.map_eq_some_iff.1 hresult
  rw [toOption_eq_some_iff] at hc
  obtain ⟨source, hsource, hnone⟩ := List.any_eq_true.1 hany
  rw [Option.isNone_iff_eq_none] at hnone
  refine ⟨c, doc, timeline, hc, hdoc, htimeline, source, hsource, hnone, ?_⟩
  rintro ⟨token, htoken, -⟩
  rw [hnone] at htoken
  cases htoken

end VideoScript.ShotList
