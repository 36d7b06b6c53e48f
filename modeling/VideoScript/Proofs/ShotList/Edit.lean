import VideoScript.Proofs.Assembly.Submission
import VideoScript.Proofs.ShotList.References

/-!
# The edits of a plan

For the same uploaded files, the documents of a plan give edits of the same video
(`sameVideo_of_uploads`): the edit of the legacy document has the addresses in its timeline, and the
edit of the template has placeholders there and the addresses in its merge array. Putting the values
of the merge array in place of the placeholders of the one timeline gives the other (`SameVideo`).
-/

set_option autoImplicit false

namespace VideoScript.ShotList

open Json Text Placeholder Media Assembly

/-! ## Filled timelines -/

/-- The value that merge entries give a placeholder: that of the first entry with its name. -/
def replaceOf? (merge : List Json) (token : String) : Option String :=
  ((merge.find? (isEntryFor token)).bind (·.get? "replace")).bind text?

/-- Puts the value from the merge entries in place of a source that is one whole placeholder. -/
def fillSource (merge : List Json) (path : Path) (text : String) : String :=
  if path.finalKey? = some "src" then
    match soleToken? (trimChars text.toList) with
    | some token => (replaceOf? merge (.ofList token)).getD text
    | none => text
  else text

/-- Merge entries give a placeholder an address: there is an entry with its name, and every such
entry has the address as its value. -/
def Gives (merge : List Json) (token url : String) : Prop :=
  (∃ entry ∈ merge, Rules.IsNamed entry token) ∧
    ∀ entry ∈ merge, Rules.IsNamed entry token → entry.get? "replace" = some (.string url)

/-- The edits of a legacy document and of a template show one video. The output settings are the
same, and the timelines are when the sources of the template, all of them placeholders, are filled
from its merge array. -/
structure SameVideo (legacy template : Json) : Prop where
  output : ∃ output, legacy.get? "output" = some output ∧ template.get? "output" = some output
  timeline : ∃ timeline, template.get? "timeline" = some timeline ∧
    legacy.get? "timeline" =
      some (rewriteAt (fillSource (entriesOf template)) (Path.root.key "timeline") timeline) ∧
    ∀ leaf ∈ leavesAt (Path.root.key "timeline") timeline, leaf.path.finalKey? = some "src" →
      ∃ token url, soleToken? (trimChars leaf.text.toList) = some token ∧
        Gives (entriesOf template) (.ofList token) url
  merge : legacy.get? "merge" = none

theorem replaceOf?_of_gives {merge : List Json} {token url : String} (h : Gives merge token url) :
    replaceOf? merge token = some url := by
  obtain ⟨⟨entry, hentry, hnamed⟩, hall⟩ := h
  obtain ⟨first, hfirst⟩ := Option.isSome_iff_exists.1
    (List.find?_isSome.2 ⟨entry, hentry, isEntryFor_iff.2 hnamed⟩)
  have hvalue := hall first (List.mem_of_find?_eq_some hfirst)
    (isEntryFor_iff.1 (List.find?_some hfirst))
  rw [replaceOf?, hfirst, Option.bind_some, hvalue]
  rfl

/-! ## The sources of a plan -/

namespace Plan

variable {plan : Plan} {mode : Mode} {f : Json.Number → Json.Number} {uploads : List Upload}
  {leaf : Leaf} {raw url : String}

/-- A source is a media file of the plan. -/
theorem mem_mediaFiles (hp : plan.Plain) {path : Path}
    (hl : leaf ∈ leavesAt path (plan.timeline .legacy)) (hkey : leaf.path.finalKey? = some "src") :
    leaf.text ∈ plan.mediaFiles := by
  rcases source_or_plain hp hl with ⟨-, hfile⟩ | ⟨hother, -⟩
  · exact hfile
  · exact absurd hkey hother

/-- A source makes a reference. -/
theorem mem_references (hp : plan.Plain) (ht : plan.Tidy)
    (hl : leaf ∈ leavesAt (timelinePath mode) (plan.timeline .legacy))
    (hkey : leaf.path.finalKey? = some "src") (hraw : rawOf? (some "src", leaf.text) = some raw) :
    ⟨raw, leaf.path, mode.token? leaf.text⟩ ∈ references (plan.inDocument mode f) := by
  rw [rawOf?, if_pos rfl] at hraw
  obtain ⟨path, hpath, rfl⟩ := Option.map_eq_some_iff.1 hraw
  rw [references_inDocument hp ht, List.mem_filterMap]
  refine ⟨leaf, hl, ?_⟩
  rw [sourceReference?, if_pos hkey, hpath]
  rfl

/-- The file of a source is among those that were uploaded for the references. -/
theorem exists_url (hp : plan.Plain) (ht : plan.Tidy)
    (hlocal : ∀ file ∈ plan.mediaFiles, (diskPath? (trimChars file.toList)).isSome)
    (hu : (references (plan.inDocument mode f)).map (·.raw) ⊆ uploads.map (·.raw))
    (hl : leaf ∈ leavesAt (timelinePath mode) (plan.timeline .legacy))
    (hkey : leaf.path.finalKey? = some "src") :
    ∃ raw url, rawOf? (some "src", leaf.text) = some raw ∧ urlOf? uploads raw = some url := by
  obtain ⟨path, hpath⟩ := Option.isSome_iff_exists.1 (hlocal _ (mem_mediaFiles hp hl hkey))
  have hraw : rawOf? (some "src", leaf.text) = some (.ofList path) := by
    rw [rawOf?, if_pos rfl, hpath]
    rfl
  obtain ⟨u, -, -, hurl⟩ := exists_upload hu (mem_references hp ht hl hkey hraw)
  exact ⟨_, u.url, hraw, hurl⟩

theorem shape_template : (plan.inDocument .template f).shape = .template := rfl

/-- In the timeline of the legacy edit, a source is the address of its file. -/
theorem placedText_source (hp : plan.Plain) (ht : plan.Tidy)
    (hw : WellFormed (plan.inDocument .legacy f).toJson)
    (hl : leaf ∈ leavesAt (timelinePath .legacy) (plan.timeline .legacy))
    (hkey : leaf.path.finalKey? = some "src") (hraw : rawOf? (some "src", leaf.text) = some raw)
    (hurl : urlOf? uploads raw = some url) :
    placedText .legacy uploads (references (plan.inDocument .legacy f)) leaf.path leaf.text = url := by
  have hr := mem_references (f := f) hp ht hl hkey hraw
  exact placedText_location hr (fun r' hr' => eq_of_location hw hr' hr) rfl hurl leaf.text

/-- In the timeline of the legacy edit, what is no source stays. -/
theorem placedText_other (hkey : leaf.path.finalKey? ≠ some "src") :
    placedText .legacy uploads (references (plan.inDocument .legacy f)) leaf.path leaf.text =
      leaf.text := by
  refine placedText_of_no_reference (fun r hr hlocation => ?_) leaf.text
  obtain ⟨-, -, source, -, hsource⟩ := exists_leaf hr
  rw [← hlocation, (reference?_eq_some hsource).1] at hkey
  rw [reference?, if_neg hkey] at hsource
  cases hsource

/-- The template keeps its timeline, for all its sources are placeholders. -/
theorem placedText_template (hp : plan.Plain) (ht : plan.Tidy) (path : Path) (text : String) :
    placedText .template uploads (references (plan.inDocument .template f)) path text = text := by
  refine placedText_of_no_reference (fun r hr _ => ?_) text
  rw [references_inDocument hp ht] at hr
  obtain ⟨leaf, -, hr⟩ := List.mem_filterMap.1 hr
  unfold sourceReference? at hr
  split at hr
  · obtain ⟨raw, -, rfl⟩ := Option.map_eq_some_iff.1 hr
    exact Option.some_ne_none _
  · cases hr

/-- The merge entries of the template's edit. -/
def filledEntries (plan : Plan) (f : Json.Number → Json.Number) (uploads : List Upload) :
    List Json :=
  mergeEntriesOf (plan.inDocument .template f)
    (boundTokens (plan.inDocument .template f) (references (plan.inDocument .template f)) uploads)

/-- The merge array of the template's edit gives the placeholder of a source the address of its
file. -/
theorem gives_source (hp : plan.Plain) (ht : plan.Tidy)
    (hu : (references (plan.inDocument .template f)).map (·.raw) ⊆ uploads.map (·.raw))
    (hl : leaf ∈ leavesAt (timelinePath .legacy) (plan.timeline .legacy))
    (hkey : leaf.path.finalKey? = some "src") (hraw : rawOf? (some "src", leaf.text) = some raw)
    (hurl : urlOf? uploads raw = some url) :
    Gives (plan.filledEntries f uploads) (trim leaf.text) url := by
  -- the same source stands in the template, under another path
  have hsame : (leaf.path.finalKey?, leaf.text) ∈
      (leavesAt (timelinePath .template) (plan.timeline .legacy)).map
        fun leaf => (leaf.path.finalKey?, leaf.text) := by
    rw [keys_timeline]
    exact List.mem_map_of_mem hl
  obtain ⟨source, hsource, heq⟩ := List.mem_map.1 hsame
  obtain ⟨hkeys, htexts⟩ := Prod.mk.inj heq
  rw [← hkeys] at hkey
  rw [← htexts] at hraw ⊢
  have hr := mem_references (f := f) hp ht hsource hkey hraw
  have hmem : ⟨trim source.text, url⟩ ∈ boundTokens (plan.inDocument .template f)
      (references (plan.inDocument .template f)) uploads := mem_boundTokens hu hr rfl hurl
  have htrim : ∀ b ∈ boundTokens (plan.inDocument .template f)
      (references (plan.inDocument .template f)) uploads, trim b.token = b.token :=
    fun b => trim_boundToken
  constructor
  · obtain ⟨entry, hentry, hfor⟩ := Assembly.exists_entry htrim hmem
    exact ⟨entry, hentry, isEntryFor_iff.1 hfor⟩
  · exact fun entry hentry hnamed => replace_of_mem_mergeEntriesOf (nodup_boundTokens hu) htrim hmem
      hentry (isEntryFor_iff.2 hnamed)

/-! ## The edits -/

/-- A source of the template is the address of its file when it is filled. -/
theorem fillSource_braced (hp : plan.Plain) (ht : plan.Tidy) {merge : List Json} {path : Path}
    {file : String} (hkey : path.finalKey? = some "src") (hfile : file ∈ plan.mediaFiles)
    (hgives : Gives merge (trim file) url) :
    fillSource merge path (Mode.template.source file) = url := by
  rw [fillSource, if_pos hkey,
    soleToken?_braced (hp.mediaFile ht hfile) (ht.trimChars_ne_nil hfile)]
  dsimp only
  rw [show String.ofList (trimChars file.toList) = trim file from rfl, replaceOf?_of_gives hgives]
  rfl

section
variable (hp : plan.Plain) (ht : plan.Tidy)
  (hlegacy : WellFormed (plan.inDocument .legacy f).toJson)
  (hlocal : ∀ file ∈ plan.mediaFiles, (diskPath? (trimChars file.toList)).isSome)
  (hu : (references (plan.inDocument .legacy f)).map (·.raw) ⊆ uploads.map (·.raw))
include hp ht hlegacy hlocal hu

/-- Every source has an address, which the one edit has in its timeline and the other in its merge
array. -/
theorem exists_address (hl : leaf ∈ leavesAt (timelinePath .legacy) (plan.timeline .legacy))
    (hkey : leaf.path.finalKey? = some "src") :
    ∃ url, placedText .legacy uploads (references (plan.inDocument .legacy f)) leaf.path leaf.text =
        url ∧ Gives (plan.filledEntries f uploads) (trim leaf.text) url := by
  have hut : (references (plan.inDocument .template f)).map (·.raw) ⊆ uploads.map (·.raw) := by
    rwa [raws_inDocument hp ht .template]
  obtain ⟨raw, url, hraw, hurl⟩ := exists_url hp ht hlocal hu hl hkey
  exact ⟨url, placedText_source hp ht hlegacy hl hkey hraw hurl,
    gives_source hp ht hut hl hkey hraw hurl⟩

/-- Filling the sources of the template gives the timeline of the legacy edit. -/
theorem fillSource_timeline :
    rewriteAt (fillSource (plan.filledEntries f uploads)) (timelinePath .legacy)
        (mapNumbers f (plan.timeline .template)) =
      rewriteAt (placedText .legacy uploads (references (plan.inDocument .legacy f)))
        (timelinePath .legacy) (mapNumbers f (plan.timeline .legacy)) := by
  rw [timeline_template plan (timelinePath .legacy), rewriteAt_mapNumbers, rewriteAt_mapNumbers,
    rewriteAt_rewriteAt]
  refine congrArg (mapNumbers f) (rewriteAt_congr_leaves fun leaf hl => ?_)
  by_cases hkey : leaf.path.finalKey? = some "src"
  · obtain ⟨url, hplaced, hgives⟩ := exists_address hp ht hlegacy hlocal hu hl hkey
    rw [hplaced, braceSource, if_pos hkey,
      fillSource_braced hp ht hkey (mem_mediaFiles hp hl hkey) hgives]
  · rw [placedText_other hkey, braceSource, if_neg hkey, fillSource, if_neg hkey]

/-- For the same uploads, both documents of a plan have edits, and these show one video. -/
theorem sameVideo_of_uploads (htemplate : WellFormed (plan.inDocument .template f).toJson) :
    ∃ legacy template,
      edit (plan.inDocument .legacy f) (references (plan.inDocument .legacy f)) uploads =
        .ok legacy ∧
      edit (plan.inDocument .template f) (references (plan.inDocument .template f)) uploads =
        .ok template ∧ SameVideo legacy template := by
  have hut : (references (plan.inDocument .template f)).map (·.raw) ⊆ uploads.map (·.raw) := by
    rwa [raws_inDocument hp ht .template]
  have hkept : rewriteAt (placedText .template uploads
      (references (plan.inDocument .template f))) (timelinePath .template)
        (mapNumbers f (plan.timeline .template)) = mapNumbers f (plan.timeline .template) :=
    rewriteAt_eq_self fun steps text => placedText_template hp ht _ text
  have hedit := edit_of_parts htemplate hut timeline?_inDocument output?_inDocument
  rw [timelinePath_inDocument, shape_template, hkept] at hedit
  refine ⟨_, _, edit_of_parts hlegacy hu timeline?_inDocument output?_inDocument, hedit,
    ⟨_, rfl, rfl⟩, ⟨_, rfl, ?_, fun leaf hl hkey => ?_⟩, rfl⟩
  · exact congrArg some (fillSource_timeline hp ht hlegacy hlocal hu).symm
  · rw [leavesAt_mapNumbers, timeline_template plan (timelinePath .legacy),
      show Path.root.key "timeline" = timelinePath .legacy from rfl, leavesAt_rewriteAt] at hl
    obtain ⟨old, hold, rfl⟩ := List.mem_map.1 hl
    have hfile := mem_mediaFiles hp hold hkey
    obtain ⟨url, -, hgives⟩ := exists_address hp ht hlegacy hlocal hu hold hkey
    refine ⟨trimChars old.text.toList, url, ?_, hgives⟩
    rw [braceSource, if_pos hkey]
    exact soleToken?_braced (hp.mediaFile ht hfile) (ht.trimChars_ne_nil hfile)

end

end Plan

end VideoScript.ShotList
