import Mathlib.Data.List.Basic
import VideoScript.Rules.Layout

/-!
# The steps of the layout rule

The layout rule goes through a timeline in steps (`LayoutStep`): it reports a container that has the
wrong form, or it looks into a clip. Its findings in the template and the timeline are those of the
steps (`findings_bodySteps`), and the clips that it looks into are the clips of the document
(`clips_of_bodySteps`), so rules that go by the clips of a document look where the layout rule looks.
-/

set_option autoImplicit false

namespace VideoScript.Rules

open Json

variable {path : Path}

/-! ## One step after another -/

/-- A step through a timeline: a fault of a container, or a clip to look into. -/
inductive LayoutStep where
  | fault (f : Finding)
  | clip (clip : Located Members)

/-- The findings of a step. -/
def LayoutStep.findings : LayoutStep → List Finding
  | fault f => [f]
  | clip c => clipFindings c.value c.path

/-- The clip of a step into one. -/
def LayoutStep.clip? : LayoutStep → Option (Located Members)
  | fault _ => none
  | clip c => some c

/-- The step to an item of an array of clips. -/
def clipItemStep (path : Path) (clip : Json) : LayoutStep :=
  match clip with
  | .object members => .clip ⟨members, path⟩
  | _ => .fault (layoutError path "clip must be an object")

/-- The steps through a track. -/
def trackSteps (path : Path) (track : Json) : List LayoutStep :=
  match track with
  | .object _ =>
    let clipsPath := path.key "clips"
    match track.get? "clips" with
    | none => [.fault (missing clipsPath "clips")]
    | some (.array clips) =>
      clips.zipIdx.map fun (clip, i) => clipItemStep (clipsPath.index i) clip
    | some _ => [.fault (layoutError clipsPath "clips must be an array")]
  | _ => [.fault (layoutError path "track must be an object")]

/-- The steps through a timeline. -/
def timelineSteps (path : Path) (timeline : Json) : List LayoutStep :=
  match timeline with
  | .object _ =>
    let tracksPath := path.key "tracks"
    match timeline.get? "tracks" with
    | none => [.fault (missing tracksPath "tracks")]
    | some (.array tracks) =>
      (if tracks.isEmpty then
          [.fault (layoutError tracksPath "tracks must contain at least one track")]
        else [])
      ++ tracks.zipIdx.flatMap fun (track, i) => trackSteps (tracksPath.index i) track
    | some _ => [.fault (layoutError tracksPath "tracks must be an array")]
  | _ => [.fault (layoutError path "timeline must be an object")]

/-- The steps through the template and the timeline. -/
def bodySteps (doc : Document) : List LayoutStep :=
  match doc.shape, doc.template? with
  | .template, none =>
    [.fault (layoutError (Path.root.key "template") "template must be an object")]
  | _, _ =>
    match doc.timeline? with
    | some timeline => timelineSteps doc.timelinePath timeline
    | none => [.fault (missing doc.timelinePath "timeline")]

/-! ## The findings of the steps -/

theorem findings_clipItemStep (clip : Json) :
    (clipItemStep path clip).findings = clipItemFindings path clip := by
  cases clip <;> rfl

theorem findings_trackSteps (track : Json) :
    (trackSteps path track).flatMap LayoutStep.findings = trackFindings path track := by
  unfold trackSteps trackFindings
  cases track with
  | object members =>
    dsimp only
    cases (Json.object members).get? "clips" with
    | none => rfl
    | some value =>
      cases value with
      | array clips =>
        dsimp only
        rw [List.flatMap_map]
        exact List.flatMap_congr fun x _ => findings_clipItemStep x.1
      | _ => rfl
  | _ => rfl

theorem findings_timelineSteps (timeline : Json) :
    (timelineSteps path timeline).flatMap LayoutStep.findings = timelineFindings path timeline := by
  unfold timelineSteps timelineFindings
  cases timeline with
  | object members =>
    dsimp only
    cases (Json.object members).get? "tracks" with
    | none => rfl
    | some value =>
      cases value with
      | array tracks =>
        dsimp only
        rw [List.flatMap_append, List.flatMap_assoc]
        congr 1
        · cases tracks <;> rfl
        · exact List.flatMap_congr fun x _ => findings_trackSteps x.1
      | _ => rfl
  | _ => rfl

/-- The findings of the layout rule in the template and the timeline are those of its steps. -/
theorem findings_bodySteps (doc : Document) :
    (bodySteps doc).flatMap LayoutStep.findings = bodyFindings doc := by
  unfold bodySteps bodyFindings
  cases hs : doc.shape <;> cases ht : doc.template? <;> cases hl : doc.timeline? <;>
    simp only [findings_timelineSteps] <;> rfl

/-! ## The clips of the steps -/

theorem clip?_clipItemStep (clip : Json) :
    (clipItemStep path clip).clip? = clip.members?.map fun members => ⟨members, path⟩ := by
  cases clip <;> rfl

theorem clips_of_trackSteps (track : Json) :
    (trackSteps path track).filterMap LayoutStep.clip? = Document.clipsOfTrack path track := by
  unfold trackSteps Document.clipsOfTrack
  cases track with
  | object members =>
    dsimp only [get?, members?, Option.bind_some]
    cases Members.get? members "clips" with
    | none => rfl
    | some value =>
      cases value with
      | array clips =>
        rw [List.filterMap_map]
        exact List.filterMap_congr fun x _ => clip?_clipItemStep x.1
      | _ => rfl
  | _ => rfl

theorem clips_of_timelineSteps (timeline : Json) :
    (timelineSteps path timeline).filterMap LayoutStep.clip? =
      match (timeline.get? "tracks").bind items? with
      | none => []
      | some tracks => tracks.zipIdx.flatMap fun (track, i) =>
        Document.clipsOfTrack ((path.key "tracks").index i) track := by
  unfold timelineSteps
  cases timeline with
  | object members =>
    dsimp only [get?, members?, Option.bind_some]
    cases Members.get? members "tracks" with
    | none => rfl
    | some value =>
      cases value with
      | array tracks =>
        dsimp only [items?, Option.bind_some]
        rw [List.filterMap_append, List.filterMap_flatMap]
        have hfault : (if tracks.isEmpty then [LayoutStep.fault (layoutError (path.key "tracks")
            "tracks must contain at least one track")] else []).filterMap LayoutStep.clip? = [] := by
          split <;> rfl
        rw [hfault, List.nil_append]
        exact List.flatMap_congr fun x _ => clips_of_trackSteps x.1
      | _ => rfl
  | _ => rfl

/-- The layout rule looks into the clips of the document, in order and at their paths. -/
theorem clips_of_bodySteps (doc : Document) :
    (bodySteps doc).filterMap LayoutStep.clip? = doc.clips := by
  unfold bodySteps Document.clips
  cases ht : doc.timeline? with
  | none =>
    cases doc.shape <;> cases doc.template? <;> rfl
  | some timeline =>
    have hbody : bodySteps doc = timelineSteps doc.timelinePath timeline := by
      unfold bodySteps
      rw [ht]
      split
      · rename_i hs htemplate
        unfold Document.timeline? at ht
        rw [hs, htemplate] at ht
        cases ht
      · rfl
    rw [bodySteps, ht] at hbody
    rw [hbody, clips_of_timelineSteps]
    rfl

end VideoScript.Rules
