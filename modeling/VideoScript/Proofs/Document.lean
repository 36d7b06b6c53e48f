import VideoScript.Document
import VideoScript.Proofs.Json.Places

/-!
# Where the parts of a document stand

The timeline is what its path leads to (`follow?_timelinePath`), and so are the other parts and the
clips (`partAt_rootOrTemplate?`, `partAt_clip`). When strings of the document are
rewritten, its shape stays, and each part is the part from before, rewritten: the timeline
(`timeline?_rewritten`), and what stands at the root or in the template
(`rootOrTemplate?_rewritten`).
-/

set_option autoImplicit false

namespace VideoScript.Document

open Json

variable {doc : Document} {f : Path → String → String}

/-- The document with its strings rewritten. -/
def rewritten (f : Path → String → String) (doc : Document) : Document :=
  ⟨rewriteMembers f .root doc.root⟩

theorem toJson_rewritten : (doc.rewritten f).toJson = rewriteAt f .root doc.toJson := rfl

theorem follow?_template (name : String) :
    doc.toJson.follow? [.key "template", .key name] = doc.template?.bind (·.get? name) := by
  unfold Document.template?
  rw [Option.bind_assoc]
  show (doc.root.get? "template").bind _ = _
  refine congrArg (doc.root.get? "template").bind (funext fun v => ?_)
  show (v.members?.bind (·.get? name)).bind some = _
  rw [Option.bind_fun_some]

theorem follow?_root (name : String) : doc.toJson.follow? [.key name] = doc.root.get? name := by
  show (doc.root.get? name).bind some = _
  rw [Option.bind_fun_some]

theorem follow?_timelinePath : doc.toJson.follow? doc.timelinePath.steps = doc.timeline? := by
  unfold timelinePath timeline?
  cases doc.shape with
  | template => exact follow?_template "timeline"
  | legacy => exact follow?_root "timeline"

/-! ## Well-formed parts -/

theorem wellFormed_timeline (hw : WellFormed doc.toJson) {timeline : Json}
    (h : doc.timeline? = some timeline) : WellFormed timeline := by
  rw [← follow?_timelinePath] at h
  exact hw.follow? h

/-! ## Parts at their paths -/

theorem partAt_template {template : Members} (h : doc.template? = some template) :
    PartAt doc.toJson (Path.root.key "template") (.object template) := by
  obtain ⟨value, hv, hm⟩ := Option.bind_eq_some_iff.1 h
  cases value <;> cases hm
  exact (follow?_root "template").trans hv

theorem partAt_rootOrTemplate? {name : String} {part : Located Json}
    (h : doc.rootOrTemplate? name = some part) : PartAt doc.toJson part.path part.value := by
  unfold rootOrTemplate? at h
  split at h
  · rename_i value hv
    cases h
    exact (follow?_root name).trans hv
  · obtain ⟨template, ht, h⟩ := Option.bind_eq_some_iff.1 h
    obtain ⟨value, hv, h⟩ := Option.bind_eq_some_iff.1 h
    cases h
    exact (partAt_template ht).key hv

/-- Even a timeline that is not there has its place, unless the template is no object. -/
theorem isPlace_timelinePath (h : doc.shape = .template → doc.template? ≠ none) :
    IsPlace doc.toJson doc.timelinePath := by
  have hroot : PartAt doc.toJson .root (.object doc.root) := rfl
  unfold timelinePath
  cases hs : doc.shape with
  | legacy => exact hroot.member "timeline"
  | template =>
    obtain ⟨template, ht⟩ := Option.ne_none_iff_exists'.1 (h hs)
    exact (partAt_template ht).member "timeline"

theorem partAt_clipsOfTrack {path : Path} {track : Json} {clip : Located Members}
    (h : PartAt doc.toJson path track) (hc : clip ∈ clipsOfTrack path track) :
    PartAt doc.toJson clip.path (.object clip.value) := by
  unfold clipsOfTrack at hc
  split at hc
  · cases hc
  · rename_i clips hclips
    obtain ⟨value, hv, hitems⟩ := Option.bind_eq_some_iff.1 hclips
    cases value <;> cases hitems
    obtain ⟨⟨item, i⟩, hi, hclip⟩ := List.mem_filterMap.1 hc
    obtain ⟨members, hm, rfl⟩ := Option.map_eq_some_iff.1 hclip
    cases item <;> cases hm
    exact (h.key hv).index (List.mk_mem_zipIdx_iff_getElem?.1 hi)

theorem partAt_clip {clip : Located Members} (h : clip ∈ doc.clips) :
    PartAt doc.toJson clip.path (.object clip.value) := by
  unfold clips at h
  split at h
  · cases h
  · rename_i tracks htracks
    obtain ⟨value, hv, hitems⟩ := Option.bind_eq_some_iff.1 htracks
    obtain ⟨timeline, ht, hv⟩ := Option.bind_eq_some_iff.1 hv
    cases value <;> cases hitems
    obtain ⟨⟨track, i⟩, hi, hc⟩ := List.mem_flatMap.1 h
    have htimeline : PartAt doc.toJson doc.timelinePath timeline := follow?_timelinePath.trans ht
    exact partAt_clipsOfTrack
      ((htimeline.key hv).index (List.mk_mem_zipIdx_iff_getElem?.1 hi)) hc

/-! ## Rewritten parts -/

theorem get?_rewritten (name : String) :
    (doc.rewritten f).root.get? name =
      (doc.root.get? name).map (rewriteAt f (Path.root.key name)) :=
  get?_rewriteMembers _ _

theorem shape_rewritten : (doc.rewritten f).shape = doc.shape := by
  unfold shape Members.has
  rw [get?_rewritten, Option.isSome_map]

theorem timelinePath_rewritten : (doc.rewritten f).timelinePath = doc.timelinePath := by
  unfold timelinePath
  rw [shape_rewritten]

theorem timeline?_rewritten :
    (doc.rewritten f).timeline? = doc.timeline?.map (rewriteAt f doc.timelinePath) := by
  rw [← follow?_timelinePath, ← follow?_timelinePath, timelinePath_rewritten, toJson_rewritten,
    follow?_rewriteAt]
  rfl

theorem rootOrTemplate?_rewritten (name : String) :
    (doc.rewritten f).rootOrTemplate? name =
      (doc.rootOrTemplate? name).map fun part => ⟨rewriteAt f part.path part.value, part.path⟩ := by
  have ht : ((doc.rewritten f).template?.bind (·.get? name)) =
      (doc.template?.bind (·.get? name)).map
        (rewriteAt f ((Path.root.key "template").key name)) := by
    rw [← follow?_template, ← follow?_template, toJson_rewritten, follow?_rewriteAt]
    rfl
  unfold rootOrTemplate?
  rw [get?_rewritten]
  cases doc.root.get? name with
  | some v => rfl
  | none =>
    show ((doc.rewritten f).template?.bind fun t => (t.get? name).bind fun v => some _) =
      (doc.template?.bind fun t => (t.get? name).bind fun v => some _).map _
    rw [← Option.bind_assoc, ← Option.bind_assoc, ht]
    cases doc.template?.bind (·.get? name) <;> rfl

end VideoScript.Document
