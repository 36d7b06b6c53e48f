import VideoScript.Proofs.Decimal.Floats
import VideoScript.Proofs.ShotList.Check
import VideoScript.Proofs.ShotList.Shapes

/-!
# The clips of a shot list

The document of a plan has one clip for each shot, in order (`clipsOf_document`). What is checked of
the numbers of a shot is that the length is not at most zero and that the trim is not below zero
(`readShot_checked`); a float that is infinite or no number may pass both. Such a float is written
as null, and a finite one as a number on the same side of zero (`seconds_of_finite`). So the numbers
of a clip can be used exactly when those of its shot are finite (`clip_numbers_usable_iff`).
-/

set_option autoImplicit false

namespace VideoScript

/-! ## Numbers in a document -/

namespace Json.Number

/-- The number has a value. -/
def IsFinite : Number → Prop
  | .whole _ => True
  | .float x => x.isFinite = true

/-- The number is above zero. -/
def Positive : Number → Prop
  | .whole n => 0 < n
  | .float x => 0.0 < x

/-- The number is zero or above zero. -/
def NonNegative : Number → Prop
  | .whole n => 0 ≤ n
  | .float x => 0.0 ≤ x

end Json.Number

namespace ShotList

open Json Text Decimal

section
variable {x : Float}

theorem seconds_of_not_finite (h : x.isFinite = false) : seconds x = .null := by
  unfold seconds
  rw [whole?_of_not_finite h]
  exact if_neg (by rw [h]; exact Bool.false_ne_true)

/-- A finite float is written as a number on the same side of zero. -/
theorem seconds_of_finite (h : x.isFinite = true) : ∃ n, seconds x = .number n ∧ n.IsFinite ∧
    (0.0 < x → n.Positive) ∧ (0.0 ≤ x → n.NonNegative) := by
  have hfloat : ofFloat x = .number (.float x) := if_pos h
  unfold seconds
  cases hw : whole? x with
  | none => exact ⟨.float x, hfloat, h, id, id⟩
  | some n =>
    obtain ⟨hpos, hnonneg⟩ := sides_of_whole? h hw
    dsimp only
    split
    · exact ⟨.whole n, rfl, trivial, hpos, hnonneg⟩
    · exact ⟨.float x, hfloat, h, id, id⟩

theorem finite_of_seconds {n : Number} (h : seconds x = .number n) : x.isFinite = true := by
  cases hx : x.isFinite with
  | true => rfl
  | false =>
    rw [seconds_of_not_finite hx] at h
    cases h

end

/-! ## The numbers of a shot -/

theorem clockTime?_not_lt_zero {hours minutes secs : List Char} {x : Float}
    (h : clockTime? hours minutes secs = some x) : ¬ x < 0.0 := by
  obtain ⟨_, -, h⟩ := Option.bind_eq_some_iff.1 h
  obtain ⟨_, -, h⟩ := Option.bind_eq_some_iff.1 h
  obtain ⟨s, -, h⟩ := Option.bind_eq_some_iff.1 h
  split at h
  · cases h
  · rename_i hs
    cases h
    exact add_not_lt_zero (floatOfNat_not_lt_zero _) hs

theorem time?_not_lt_zero {s : List Char} {x : Float} (h : time? s = some x) : ¬ x < 0.0 := by
  unfold time? at h
  split at h
  · exact clockTime?_not_lt_zero h
  · exact clockTime?_not_lt_zero h
  · cases h

theorem readTrim_not_lt_zero {isVideo : Bool} {cell : String} {trim : Option Float}
    (h : readTrim isVideo cell = .ok trim) : ∀ x ∈ trim, ¬ x < 0.0 := by
  unfold readTrim at h
  split at h
  · cases h
    intro x hx
    cases hx
  · unfold readTime at h
    split at h
    · rename_i t ht
      cases h
      rintro x hx
      obtain rfl : t = x := Option.some.inj hx
      exact time?_not_lt_zero ht
    · cases h

/-- What is checked of the numbers of a shot: the length is not at most zero, and the trim is not
below zero. -/
theorem readShot_checked {cells : List String} {shot : Shot} (h : readShot cells = .ok shot) :
    ¬ shot.length ≤ 0.0 ∧ ∀ x ∈ shot.trim, ¬ x < 0.0 := by
  unfold readShot at h
  split at h
  · split at h
    · cases h
    · obtain ⟨length, -, h⟩ := bind_eq_ok h
      split at h
      · cases h
      · rename_i hlength
        obtain ⟨trim, htrim, h⟩ := bind_eq_ok h
        obtain ⟨volume, -, h⟩ := bind_eq_ok h
        cases h
        exact ⟨hlength, readTrim_not_lt_zero htrim⟩
  · cases h

theorem checked_of_mem_acceptedShots {text : List Char} {shot : Shot}
    (h : shot ∈ acceptedShots text) : ¬ shot.length ≤ 0.0 ∧ ∀ x ∈ shot.trim, ¬ x < 0.0 := by
  obtain ⟨r, -, h⟩ := List.mem_filterMap.1 h
  exact readShot_checked (toOption_eq_some_iff.1 h)

/-! ## The numbers of a clip -/

/-- The numbers of a clip can be used: its length is a number above zero, and what its asset has for
a trim or a volume is a number, which is not below zero for a trim. -/
structure UsableNumbers (clip : Json) : Prop where
  length : ∃ n, clip.get? "length" = some (.number n) ∧ n.IsFinite ∧ n.Positive
  trim : ∀ asset, clip.get? "asset" = some asset → ∀ v, asset.get? "trim" = some v →
    ∃ n, v = .number n ∧ n.IsFinite ∧ n.NonNegative
  volume : ∀ asset, clip.get? "asset" = some asset → ∀ v, asset.get? "volume" = some v →
    ∃ n, v = .number n ∧ n.IsFinite

/-- The numbers of a shot are finite. -/
structure Shot.FiniteNumbers (shot : Shot) : Prop where
  length : shot.length.isFinite = true
  trim : ∀ x ∈ shot.trim, x.isFinite = true
  volume : ∀ x ∈ shot.volume, x.isFinite = true

section
variable {shot : Shot} {mode : Mode} {dir : String}

theorem get?_clip_length : (shot.clip mode dir).get? "length" = some (seconds shot.length) := rfl

theorem get?_clip_asset : (shot.clip mode dir).get? "asset" = some (shot.asset mode dir) := rfl

theorem get?_asset_trim : (shot.asset mode dir).get? "trim" = shot.trim.map seconds := by
  show (membersOf (shot.asset mode dir)).get? "trim" = _
  rw [get?_asset, if_neg (show "trim" ≠ "volume" by decide), Option.or_none]
  rfl

theorem get?_asset_volume : (shot.asset mode dir).get? "volume" = shot.volume.map seconds := by
  show (membersOf (shot.asset mode dir)).get? "volume" = _
  rw [get?_asset, if_neg (show "volume" ≠ "trim" by decide), Option.or_none]
  rfl

theorem usableNumbers_clip_iff (hlength : ¬ shot.length ≤ 0.0)
    (htrim : ∀ x ∈ shot.trim, ¬ x < 0.0) :
    UsableNumbers (shot.clip mode dir) ↔ shot.FiniteNumbers := by
  constructor
  · rintro ⟨⟨n, hn, -, -⟩, ht, hv⟩
    rw [get?_clip_length, Option.some.injEq] at hn
    refine ⟨finite_of_seconds hn, fun x hx => ?_, fun x hx => ?_⟩
    · obtain ⟨n, hn, -, -⟩ := ht _ get?_clip_asset (seconds x) (by rw [get?_asset_trim, hx]; rfl)
      exact finite_of_seconds hn
    · obtain ⟨n, hn, -⟩ := hv _ get?_clip_asset (seconds x) (by rw [get?_asset_volume, hx]; rfl)
      exact finite_of_seconds hn
  · rintro ⟨hl, ht, hv⟩
    refine ⟨?_, fun asset hasset v h => ?_, fun asset hasset v h => ?_⟩
    · obtain ⟨n, hn, hfinite, hpos, -⟩ := seconds_of_finite hl
      exact ⟨n, by rw [get?_clip_length, hn], hfinite, hpos (zero_lt_of_not_le hl hlength)⟩
    · obtain rfl : shot.asset mode dir = asset := Option.some.inj hasset
      rw [get?_asset_trim] at h
      obtain ⟨x, hx, rfl⟩ := Option.map_eq_some_iff.1 h
      obtain ⟨n, hn, hfinite, -, hle⟩ := seconds_of_finite (ht x hx)
      exact ⟨n, hn, hfinite, hle (zero_le_of_not_lt (ht x hx) (htrim x hx))⟩
    · obtain rfl : shot.asset mode dir = asset := Option.some.inj hasset
      rw [get?_asset_volume] at h
      obtain ⟨x, hx, rfl⟩ := Option.map_eq_some_iff.1 h
      obtain ⟨n, hn, hfinite, -⟩ := seconds_of_finite (hv x hx)
      exact ⟨n, hn, hfinite⟩

end

/-! ## The clips of a document -/

/-- The clips of a document that are objects, in order. -/
def clipsOf (document : Json) : List Json :=
  ((Document.ofJson? document).map fun doc => doc.clips.map fun l => .object l.value).getD []

theorem clipsOf_document (plan : Plan) (mode : Mode) :
    clipsOf (plan.document mode) = plan.clips mode := by
  have h := plan.ofJson?_document mode id
  rw [mapNumbers_id] at h
  rw [clipsOf, h, Option.map_some, Option.getD_some, Plan.clips_inDocument, List.map_map,
    Plan.clips]
  conv_rhs => rw [← List.zipIdx_map_fst 0 plan.shots, List.map_map]
  exact List.map_congr_left fun x _ =>
    mapNumbers_id (v := x.1.shot.clip mode plan.resourcesDir)

/-- The clips of a converted shot list are those of its accepted rows, in order. -/
theorem clipsOf_convert {text : String} {mode : Mode} {c : Conversion}
    (h : convert text mode = .ok c) :
    clipsOf c.document = (acceptedShots text.toList).map (·.clip mode c.resourcesDir) := by
  obtain ⟨plan, hplan, rfl⟩ := readPlan_of_convert h
  show clipsOf (plan.document mode) = _
  rw [clipsOf_document, ← shots_of_readPlan hplan, List.map_map]
  rfl

/-- **The numbers of a clip can be used, exactly when those of its row are finite.** Take a text
that is converted. Its document has a clip for each accepted row, in order. The clip has a length
above zero, and numbers for a trim and a volume, the trim not below zero, if and only if the length,
the trim and the volume of its row are finite. -/
theorem clip_numbers_usable_iff {text : String} {mode : Mode} {c : Conversion}
    (h : convert text mode = .ok c) :
    List.Forall₂ (fun shot clip => UsableNumbers clip ↔ shot.FiniteNumbers)
      (acceptedShots text.toList) (clipsOf c.document) := by
  rw [clipsOf_convert h, List.forall₂_map_right_iff, List.forall₂_same]
  intro shot hshot
  obtain ⟨hlength, htrim⟩ := checked_of_mem_acceptedShots hshot
  exact usableNumbers_clip_iff hlength htrim

/-- A shot list with two rows; the numbers of the second one have no end. -/
def endlessList : String :=
  "## name: Demo\n## resources_dir: media\n| # |\n" ++
  "| 1 | a.mp4 | 0:05 | 3s | | | | | 0.5 | |\n| 2 | a.mp4 | 0:inf | inf | | | | | nan | |\n"

theorem clip_numbers_usable_iff_endless :
    ∃ c, convert endlessList .template = .ok c ∧
      (acceptedShots endlessList.toList).map (·.length.isFinite) = [true, false] ∧
      List.Forall₂ (fun shot clip => UsableNumbers clip ↔ shot.FiniteNumbers)
        (acceptedShots endlessList.toList) (clipsOf c.document) := by
  have hok : (convert endlessList .template).isOk = true := by decide +kernel
  have hfinite : (acceptedShots endlessList.toList).map (·.length.isFinite) = [true, false] := by
    decide +kernel
  obtain ⟨c, hc⟩ := exists_of_isOk hok
  exact ⟨c, hc, hfinite, clip_numbers_usable_iff hc⟩

/-- A row whose numbers have no end is taken, and its clip has null for each of them. -/
theorem endless_numbers_null :
    ∃ c, convert endlessList .legacy = .ok c ∧ ∃ clip ∈ clipsOf c.document,
      clip.get? "length" = some .null ∧ ¬ UsableNumbers clip ∧
      ∃ asset, clip.get? "asset" = some asset ∧ asset.get? "trim" = some .null ∧
        asset.get? "volume" = some .null := by
  have hok : (convert endlessList .legacy).isOk = true := by decide +kernel
  have hendless : ((acceptedShots endlessList.toList).any fun shot => !shot.length.isFinite &&
      shot.trim.any (!·.isFinite) && shot.volume.any (!·.isFinite)) = true := by decide +kernel
  obtain ⟨c, hc⟩ := exists_of_isOk hok
  obtain ⟨shot, hshot, h⟩ := List.any_eq_true.1 hendless
  simp only [Bool.and_eq_true, Bool.not_eq_true', Option.any_eq_true] at h
  obtain ⟨⟨hlength, trim, htrim, ht⟩, volume, hvolume, hv⟩ := h
  have hnull : (shot.clip .legacy c.resourcesDir).get? "length" = some .null := by
    rw [get?_clip_length, seconds_of_not_finite hlength]
  refine ⟨c, hc, shot.clip .legacy c.resourcesDir, ?_, hnull, ?_, _, get?_clip_asset, ?_, ?_⟩
  · rw [clipsOf_convert hc]
    exact List.mem_map_of_mem hshot
  · rintro ⟨⟨n, hn, -⟩, -, -⟩
    rw [hnull] at hn
    cases hn
  · rw [get?_asset_trim, htrim, Option.map_some, seconds_of_not_finite ht]
  · rw [get?_asset_volume, hvolume, Option.map_some, seconds_of_not_finite hv]

end ShotList

end VideoScript
