import VideoScript.Proofs.Placeholder.Pieces
import VideoScript.Rules.Layout

/-!
# Documents without a layout finding

`WellLaidOut doc` says what a document needs for a render: a template that is an object, if there is
one, a timeline with tracks of clips, and output settings. It is put together from a predicate for
each part (`GoodAsset`, `GoodClip`, `GoodTrack`, `GoodTimeline`, `GoodOutput`), in which a string
with a placeholder fits wherever a number does (`Deferred`).

Each rule about a part finds nothing exactly when the part is good, and so `layout doc = []` exactly
when the document is well laid out (`layout_eq_nil_iff`).
-/

set_option autoImplicit false

namespace VideoScript.Rules

open Json Placeholder

/-! ## Good parts -/

/-- A string with a placeholder in it. -/
def Deferred (value : Json) : Prop := ∃ s token, value = .string s ∧ .token token ∈ pieces s.toList

/-- A number whose value has a property. -/
def NumberWith (p : Float → Prop) (value : Json) : Prop := ∃ n, value = .number n ∧ p n.toFloat

/-- A member that is absent, has a placeholder or is a number whose value has a property. -/
def OptionalNumber (p : Float → Prop) (members : Members) (key : String) : Prop :=
  ∀ value, members.get? key = some value → Deferred value ∨ NumberWith p value

/-- A member that is a text. -/
def HasString (members : Members) (key : String) : Prop :=
  ∃ s, members.get? key = some (.string s)

/-- A member that is a text with more than blanks in it. -/
def HasText (members : Members) (key : String) : Prop :=
  ∃ s, members.get? key = some (.string s) ∧ ∃ c ∈ s.toList, Text.isBlank c = false

structure GoodAsset (asset : Members) : Prop where
  type : HasString asset "type"
  source : ∀ kind ∈ ["video", "image", "audio"], asset.get? "type" = some (.string kind) →
    HasText asset "src"
  words : ∀ kind ∈ ["text", "title"], asset.get? "type" = some (.string kind) →
    HasText asset "text"
  volume : OptionalNumber (fun x => 0.0 ≤ x ∧ x ≤ 1.0) asset "volume"
  trim : OptionalNumber (fun x => 0.0 ≤ x) asset "trim"

structure GoodClip (clip : Members) : Prop where
  asset : ∃ asset, clip.get? "asset" = some (.object asset) ∧ GoodAsset asset
  start : ∃ value, clip.get? "start" = some value ∧
    (value = .string "auto" ∨ Deferred value ∨ NumberWith (fun x => 0.0 ≤ x) value)
  length : ∃ value, clip.get? "length" = some value ∧
    (Deferred value ∨ NumberWith (fun x => 0.0 < x) value)

/-- An object with an array of clips, which are all good. -/
def GoodTrack (track : Json) : Prop :=
  ∃ (members : Members) (clips : List Json), track = .object members ∧
    members.get? "clips" = some (.array clips) ∧
    ∀ clip ∈ clips, ∃ members, clip = .object members ∧ GoodClip members

/-- An object with an array of tracks, at least one, which are all good. -/
def GoodTimeline (timeline : Json) : Prop :=
  ∃ (members : Members) (tracks : List Json), timeline = .object members ∧
    members.get? "tracks" = some (.array tracks) ∧ tracks ≠ [] ∧
    ∀ track ∈ tracks, GoodTrack track

/-- An object with a format and, at most, a positive frame rate. -/
def GoodOutput (output : Json) : Prop :=
  ∃ members, output = .object members ∧ HasString members "format" ∧
    OptionalNumber (fun x => 0.0 < x) members "fps"

structure WellLaidOut (doc : Document) : Prop where
  template : ∀ value, doc.root.get? "template" = some value → ∃ members, value = .object members
  timeline : ∃ timeline, doc.timeline? = some timeline ∧ GoodTimeline timeline
  output : ∃ output, doc.output? = some output ∧ GoodOutput output.value

/-! ## Values -/

theorem isDeferred_iff {value : Json} : isDeferred value = true ↔ Deferred value := by
  cases value with
  | string s =>
    simp only [isDeferred, containsToken, List.any_eq_true, Deferred, Json.string.injEq]
    constructor
    · rintro ⟨piece, hm, hp⟩
      cases piece with
      | token name => exact ⟨s, name, rfl, hm⟩
      | problem => cases hp
    · rintro ⟨_, name, rfl, hm⟩
      exact ⟨_, hm, rfl⟩
  | _ => simp [isDeferred, Deferred]

theorem not_deferred_number {n : Json.Number} : ¬ Deferred (.number n) := by
  rintro ⟨s, token, h, -⟩
  cases h

theorem not_deferred_auto : ¬ Deferred (.string "auto") := by
  rintro ⟨s, token, h, hm⟩
  cases h
  rw [pieces_of_plain (by decide)] at hm
  cases hm

theorem numberWith_iff {p : Float → Prop} {value : Json} :
    NumberWith p value ↔ ∃ x, value.float? = some x ∧ p x := by
  cases value <;> simp [NumberWith, float?]

/-- What stays to be judged of an optional member. -/
theorem optionalNumber_iff {p : Float → Prop} {members : Members} {key : String} :
    OptionalNumber p members key ↔ ∀ value, settled? members key = some value →
      ∃ x, value.float? = some x ∧ p x := by
  unfold OptionalNumber settled?
  cases members.get? key with
  | none => simp
  | some value =>
    by_cases hd : isDeferred value = true
    · simp [hd, isDeferred_iff.1 hd]
    · have hn : ¬ Deferred value := fun h => hd (isDeferred_iff.2 h)
      simp [hd, hn, numberWith_iff]

theorem textFindings_eq_nil_iff {members : Members} {path : Path} {key : String} :
    textFindings members path key = [] ↔ HasText members key := by
  unfold textFindings HasText
  cases members.get? key with
  | none => simp
  | some value =>
    cases value with
    | string s => simp [Text.isBlankText]
    | _ => simp

/-! ## Assets -/

variable {path : Path}

theorem typeFindings_eq_nil_iff {asset : Members} :
    typeFindings asset path = [] ↔ HasString asset "type" := by
  unfold typeFindings HasString
  cases asset.get? "type" with
  | none => simp
  | some value => cases value <;> simp

theorem contentKey?_eq_some_iff {kind key : String} : contentKey? kind = some key ↔
    kind ∈ ["video", "image", "audio"] ∧ key = "src" ∨ kind ∈ ["text", "title"] ∧ key = "text" := by
  unfold contentKey?
  by_cases hs : kind ∈ ["video", "image", "audio"]
  · have hw : kind ∉ ["text", "title"] := by
      simp only [List.mem_cons, List.not_mem_nil, or_false] at hs
      rcases hs with rfl | rfl | rfl <;> decide
    rw [if_pos (List.contains_iff_mem.2 hs)]
    simp only [hs, hw, true_and, false_and, or_false, Option.some.injEq]
    exact eq_comm
  · rw [if_neg (mt List.contains_iff_mem.1 hs)]
    by_cases hw : kind ∈ ["text", "title"]
    · rw [if_pos (List.contains_iff_mem.2 hw)]
      simp only [hs, hw, true_and, false_and, false_or, Option.some.injEq]
      exact eq_comm
    · rw [if_neg (mt List.contains_iff_mem.1 hw)]
      simp [hs, hw]

theorem contentFindings_eq_nil_iff {asset : Members} :
    contentFindings asset path = [] ↔ ∀ kind, asset.get? "type" = some (.string kind) →
      ∀ key, contentKey? kind = some key → HasText asset key := by
  unfold contentFindings assetType?
  cases asset.get? "type" with
  | none => simp
  | some value =>
    cases value with
    | string kind => cases hk : contentKey? kind <;> simp [text?, hk, textFindings_eq_nil_iff]
    | _ => simp [text?]

theorem volumeFindings_eq_nil_iff {asset : Members} :
    volumeFindings asset path = [] ↔
      OptionalNumber (fun x => 0.0 ≤ x ∧ x ≤ 1.0) asset "volume" := by
  rw [optionalNumber_iff]
  unfold volumeFindings
  cases settled? asset "volume" with
  | none => simp
  | some value => cases h : value.float? <;> simp [h]

theorem trimFindings_eq_nil_iff {asset : Members} :
    trimFindings asset path = [] ↔ OptionalNumber (fun x => 0.0 ≤ x) asset "trim" := by
  rw [optionalNumber_iff]
  unfold trimFindings
  cases settled? asset "trim" with
  | none => simp
  | some value => cases h : value.float? <;> simp [h]

theorem assetFindings_eq_nil_iff {asset : Members} :
    assetFindings asset path = [] ↔ GoodAsset asset := by
  simp only [assetFindings, List.append_eq_nil_iff, typeFindings_eq_nil_iff,
    contentFindings_eq_nil_iff, volumeFindings_eq_nil_iff, trimFindings_eq_nil_iff]
  constructor
  · rintro ⟨⟨⟨htype, hcontent⟩, hvolume⟩, htrim⟩
    exact ⟨htype, fun kind hk ht => hcontent kind ht _ (contentKey?_eq_some_iff.2 (.inl ⟨hk, rfl⟩)),
      fun kind hk ht => hcontent kind ht _ (contentKey?_eq_some_iff.2 (.inr ⟨hk, rfl⟩)), hvolume, htrim⟩
  · rintro ⟨htype, hsource, hwords, hvolume, htrim⟩
    refine ⟨⟨⟨htype, fun kind ht key hkey => ?_⟩, hvolume⟩, htrim⟩
    rcases contentKey?_eq_some_iff.1 hkey with ⟨hk, rfl⟩ | ⟨hk, rfl⟩
    · exact hsource kind hk ht
    · exact hwords kind hk ht

/-! ## Clips -/

theorem startFindings_eq_nil_iff {clip : Members} :
    startFindings clip path = [] ↔ ∃ value, clip.get? "start" = some value ∧
      (value = .string "auto" ∨ Deferred value ∨ NumberWith (fun x => 0.0 ≤ x) value) := by
  unfold startFindings
  cases clip.get? "start" with
  | none => simp
  | some value =>
    cases value with
    | string s =>
      by_cases hs : s = "auto" <;> simp [hs, isDeferred_iff, numberWith_iff, float?]
    | number n => simp [not_deferred_number, numberWith_iff, float?]
    | _ => simp [Deferred, NumberWith, float?]

theorem lengthFindings_eq_nil_iff {clip : Members} :
    lengthFindings clip path = [] ↔ ∃ value, clip.get? "length" = some value ∧
      (Deferred value ∨ NumberWith (fun x => 0.0 < x) value) := by
  unfold lengthFindings
  cases clip.get? "length" with
  | none => simp
  | some value =>
    cases value with
    | string s =>
      by_cases hs : s = "auto"
      · simp [hs, not_deferred_auto, NumberWith]
      · simp [hs, isDeferred_iff, NumberWith]
    | number n => simp [not_deferred_number, NumberWith]
    | _ => simp [Deferred, NumberWith]

theorem clipFindings_eq_nil_iff {clip : Members} :
    clipFindings clip path = [] ↔ GoodClip clip := by
  unfold clipFindings
  rw [List.append_eq_nil_iff, List.append_eq_nil_iff, startFindings_eq_nil_iff,
    lengthFindings_eq_nil_iff]
  constructor
  · rintro ⟨⟨ha, hs⟩, hl⟩
    refine ⟨?_, hs, hl⟩
    split at ha
    · cases ha
    · rename_i asset he
      exact ⟨asset, he, assetFindings_eq_nil_iff.1 ha⟩
    · cases ha
  · rintro ⟨⟨asset, he, ha⟩, hs, hl⟩
    rw [he]
    exact ⟨⟨assetFindings_eq_nil_iff.2 ha, hs⟩, hl⟩

theorem clipItemFindings_eq_nil_iff {clip : Json} :
    clipItemFindings path clip = [] ↔ ∃ members, clip = .object members ∧ GoodClip members := by
  cases clip <;> simp [clipItemFindings, clipFindings_eq_nil_iff]

/-! ## Tracks, timeline and output -/

/-- What holds of the items of an array with their indices and does not speak of the indices. -/
theorem forall_mem_zipIdx_iff {items : List Json} {good : Json → Prop} :
    (∀ item i, (item, i) ∈ items.zipIdx → good item) ↔ ∀ item ∈ items, good item := by
  constructor
  · intro h item hm
    obtain ⟨i, hi⟩ := List.mem_iff_getElem?.1 hm
    exact h item i (List.mk_mem_zipIdx_iff_getElem?.2 hi)
  · intro h item i hm
    exact h item (List.mem_of_getElem? (List.mk_mem_zipIdx_iff_getElem?.1 hm))

theorem trackFindings_eq_nil_iff {track : Json} :
    trackFindings path track = [] ↔ GoodTrack track := by
  unfold trackFindings GoodTrack
  cases track with
  | object members =>
    cases h : Members.get? members "clips" with
    | none => simp [get?, members?, h]
    | some value =>
      cases value <;>
        simp [get?, members?, h, clipItemFindings_eq_nil_iff, forall_mem_zipIdx_iff]
  | _ => simp

theorem timelineFindings_eq_nil_iff {timeline : Json} :
    timelineFindings path timeline = [] ↔ GoodTimeline timeline := by
  unfold timelineFindings GoodTimeline
  cases timeline with
  | object members =>
    cases h : Members.get? members "tracks" with
    | none => simp [get?, members?, h]
    | some value =>
      cases value <;> simp [get?, members?, h, trackFindings_eq_nil_iff, forall_mem_zipIdx_iff]
  | _ => simp

theorem fileTypeFindings_eq_nil_iff {output : Members} :
    fileTypeFindings output path = [] ↔ HasString output "format" := by
  unfold fileTypeFindings HasString
  cases output.get? "format" with
  | none => simp
  | some value => cases value <;> simp

theorem rateFindings_eq_nil_iff {output : Members} :
    rateFindings output path = [] ↔ OptionalNumber (fun x => 0.0 < x) output "fps" := by
  rw [optionalNumber_iff]
  unfold rateFindings
  cases settled? output "fps" with
  | none => simp
  | some value => cases h : value.float? <;> simp [h]

theorem outputFindings_eq_nil_iff {output : Json} :
    outputFindings path output = [] ↔ GoodOutput output := by
  cases output <;>
    simp [outputFindings, GoodOutput, fileTypeFindings_eq_nil_iff, rateFindings_eq_nil_iff]

/-- A document of the template shape has a template unless something else stands at its key. -/
theorem shape_template?_iff {doc : Document} :
    (∀ value, doc.root.get? "template" = some value → ∃ members, value = .object members) ↔
      (doc.shape = .template → doc.template?.isSome) := by
  unfold Document.shape Document.template? Members.has
  cases doc.root.get? "template" with
  | none => simp
  | some value => cases value <;> simp [members?]

theorem bodyFindings_eq_nil_iff {doc : Document} : bodyFindings doc = [] ↔
    (∀ value, doc.root.get? "template" = some value → ∃ members, value = .object members) ∧
    ∃ timeline, doc.timeline? = some timeline ∧ GoodTimeline timeline := by
  rw [shape_template?_iff]
  unfold bodyFindings
  cases hs : doc.shape <;> cases ht : doc.template? <;> cases hl : doc.timeline? <;>
    simp [timelineFindings_eq_nil_iff]

/-- **The layout rule.** It finds nothing in a document exactly when the document is well laid
out. -/
theorem layout_eq_nil_iff (doc : Document) : layout doc = [] ↔ WellLaidOut doc := by
  unfold layout
  rw [List.append_eq_nil_iff, bodyFindings_eq_nil_iff]
  constructor
  · rintro ⟨⟨htemplate, htimeline⟩, houtput⟩
    refine ⟨htemplate, htimeline, ?_⟩
    split at houtput
    · rename_i output ho
      exact ⟨output, ho, outputFindings_eq_nil_iff.1 houtput⟩
    · cases houtput
  · rintro ⟨htemplate, htimeline, output, ho, hgood⟩
    rw [ho]
    exact ⟨⟨htemplate, htimeline⟩, outputFindings_eq_nil_iff.2 hgood⟩

end VideoScript.Rules
