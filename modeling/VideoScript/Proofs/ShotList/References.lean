import VideoScript.Proofs.Media.Sources
import VideoScript.Proofs.ShotList.Document

/-!
# The references of a plan

A document of either shape refers to the same media files in the same order
(`raws_inDocument`): the source of a template, a placeholder whose merge entry is still blank, stands
for the path that it is named after, and that path is the source of the legacy document.
`references_inDocument` gives the references of both shapes from the sources of the legacy timeline.
-/

set_option autoImplicit false

namespace VideoScript.ShotList

open Json Text Placeholder Media

variable {plan : Plan} {mode : Mode} {f : Json.Number → Json.Number}

/-- The placeholder through which a document refers to a media file. -/
def Mode.token? (mode : Mode) (path : String) : Option String :=
  match mode with
  | .legacy => none
  | .template => some (trim path)

/-- The reference of a document to the media file that a string of the legacy timeline gives. -/
def sourceReference? (mode : Mode) (leaf : Leaf) : Option Reference :=
  if leaf.path.finalKey? = some "src" then
    (diskPath? (trimChars leaf.text.toList)).map fun raw =>
      ⟨.ofList raw, leaf.path, mode.token? leaf.text⟩
  else none

/-! ## One source -/

theorem not_soleToken {s : List Char} (h : '{' ∉ s) : soleToken? s = none := by
  cases hs : soleToken? s with
  | none => rfl
  | some token =>
    obtain ⟨body, rfl, -⟩ := soleToken?_eq_some_iff.1 hs
    exact absurd List.mem_cons_self h

/-- A path without braces is a source as it stands. -/
theorem source?_plain {bindings : List Binding} {s : List Char} (h : '{' ∉ s) :
    source? bindings s = (diskPath? s).map fun raw => (raw, none) :=
  source?_bare (not_soleToken h) (Bool.eq_false_iff.2 fun ho => h (mem_of_hasOpening ho))

namespace Plan

/-- The entries of a template leave every placeholder its own name. -/
theorem standIn_entries (plan : Plan) (token : List Char) : standIn plan.entries token = token := by
  have hblank : ∀ value, plan.entries.findSome? (entryValue? token) = some value → value = [] := by
    intro value h
    obtain ⟨entry, hentry, hvalue⟩ := List.exists_of_findSome?_eq_some h
    obtain ⟨path, -, rfl⟩ := List.mem_map.1 hentry
    change (if path ≠ "" ∧ trimChars path.toList = token then some (trimChars "".toList) else none) =
      some value at hvalue
    split at hvalue
    · exact (Option.some.inj hvalue).symm
    · cases hvalue
  unfold standIn
  split
  · rename_i c value h
    cases hblank _ h
  · rfl

/-- A path in braces is a source of a template, through its own name. -/
theorem source?_braced (hp : plan.Plain) (ht : plan.Tidy) {file : String}
    (hfile : file ∈ plan.mediaFiles) :
    source? (plan.inDocument .template f).bindings
        (trimChars (Mode.template.source file).toList) =
      (diskPath? (trimChars file.toList)).map fun raw => (raw, some (trimChars file.toList)) := by
  have hentries : (plan.inDocument .template f).mergeEntries = plan.entries := by
    rw [Document.mergeEntries, merge?_template]
    rfl
  rw [source?_whole (soleToken?_braced (hp.mediaFile ht hfile) (ht.trimChars_ne_nil hfile)),
    boundValue?_getD, hentries, standIn_entries]

theorem reference?_other {bindings : List Binding} {leaf : Leaf}
    (h : leaf.path.finalKey? ≠ some "src") : reference? bindings leaf = sourceReference? mode leaf := by
  rw [reference?, sourceReference?, if_neg h, if_neg h]

/-- A source of a legacy document is a reference to its path. -/
theorem reference?_legacy (hp : plan.Plain) (ht : plan.Tidy) {bindings : List Binding} {leaf : Leaf}
    (h : SourceOrPlain plan.mediaFiles leaf) :
    reference? bindings leaf = sourceReference? .legacy leaf := by
  rcases h with ⟨hkey, hfile⟩ | ⟨hkey, -⟩
  · have hplain : '{' ∉ trimChars leaf.text.toList := fun hm =>
      (hp.mediaFile ht hfile).1 (trimChars_subset _ hm)
    rw [reference?, sourceReference?, if_pos hkey, if_pos hkey]
    dsimp only
    rw [source?_plain hplain, if_neg (by simpa using ht.trimChars_ne_nil hfile), Option.map_map]
    rfl
  · exact reference?_other hkey

/-- A source of a template is a reference to the path that it is named after. -/
theorem reference?_template (hp : plan.Plain) (ht : plan.Tidy) {leaf : Leaf}
    (h : SourceOrPlain plan.mediaFiles leaf) :
    reference? (plan.inDocument .template f).bindings ⟨leaf.path, braceSource leaf.path leaf.text⟩ =
      sourceReference? .template leaf := by
  rcases h with ⟨hkey, hfile⟩ | ⟨hkey, -⟩
  · have hne : trimChars (Mode.template.source leaf.text).toList ≠ [] := fun he => by
      have hsole := soleToken?_braced (hp.mediaFile ht hfile) (ht.trimChars_ne_nil hfile)
      rw [he] at hsole
      cases hsole
    rw [braceSource, if_pos hkey, reference?, sourceReference?, if_pos hkey, if_pos hkey]
    dsimp only
    rw [source?_braced hp ht hfile, if_neg (by simpa using hne), Option.map_map]
    rfl
  · rw [braceSource, if_neg hkey]
    exact reference?_other hkey

/-! ## The references -/

/-- The references of the document of a plan come from the sources of the legacy timeline. -/
theorem references_inDocument (hp : plan.Plain) (ht : plan.Tidy) :
    references (plan.inDocument mode f) =
      (leavesAt (timelinePath mode) (plan.timeline .legacy)).filterMap (sourceReference? mode) := by
  rw [references, timeline?_inDocument]
  dsimp only
  rw [timelinePath_inDocument, leavesAt_mapNumbers]
  cases mode with
  | legacy =>
    exact List.filterMap_congr fun leaf hl => reference?_legacy hp ht (source_or_plain hp hl)
  | template =>
    rw [timeline_template plan (timelinePath .template), leavesAt_rewriteAt, List.filterMap_map]
    exact List.filterMap_congr fun leaf hl => reference?_template hp ht (source_or_plain hp hl)

/-- The media path of a string under a key. -/
def rawOf? (source : Option String × String) : Option String :=
  if source.1 = some "src" then (diskPath? (trimChars source.2.toList)).map .ofList else none

theorem raw_sourceReference? (mode : Mode) (leaf : Leaf) :
    (sourceReference? mode leaf).map (·.raw) = rawOf? (leaf.path.finalKey?, leaf.text) := by
  unfold sourceReference? rawOf?
  split
  · rw [Option.map_map]
    rfl
  · rfl

theorem finalKey?_timelinePath (mode : Mode) : (timelinePath mode).finalKey? = some "timeline" := by
  cases mode <;> rfl

/-- The strings of the legacy timeline, with their keys, are the same in either place. -/
theorem keys_timeline (mode : Mode) :
    (leavesAt (timelinePath mode) (plan.timeline .legacy)).map
        (fun leaf => (leaf.path.finalKey?, leaf.text)) =
      (leavesAt (timelinePath .legacy) (plan.timeline .legacy)).map
        fun leaf => (leaf.path.finalKey?, leaf.text) :=
  keys_leavesAt (by rw [finalKey?_timelinePath, finalKey?_timelinePath])

/-- Both shapes refer to the same media files, in the same order. -/
theorem raws_inDocument (hp : plan.Plain) (ht : plan.Tidy) (mode : Mode) :
    (references (plan.inDocument mode f)).map (·.raw) =
      (references (plan.inDocument .legacy f)).map (·.raw) := by
  have hraws (mode : Mode) : (references (plan.inDocument mode f)).map (·.raw) =
      ((leavesAt (timelinePath mode) (plan.timeline .legacy)).map
        fun leaf => (leaf.path.finalKey?, leaf.text)).filterMap rawOf? := by
    rw [references_inDocument hp ht, List.map_filterMap, List.filterMap_map]
    exact List.filterMap_congr fun leaf _ => raw_sourceReference? mode leaf
  rw [hraws, hraws, keys_timeline]

end Plan

end VideoScript.ShotList
