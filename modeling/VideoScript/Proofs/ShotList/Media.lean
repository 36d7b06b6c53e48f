import VideoScript.Proofs.ShotList.Texts

/-!
# The media files of a plan

The path of a media file is the directory of the media files, a slash and the name of the file. The
slash is not blank and the name ends in no blank, so trimming a path takes blanks off the directory
alone (`trimChars_mediaPath`): paths of one plan that agree but for blanks are equal
(`eq_of_trimChars`). In a template a path stands in braces, as the one piece of its text
(`pieces_braced`).
-/

set_option autoImplicit false

namespace VideoScript.ShotList

open Text Placeholder

/-! ## Paths -/

/-- What stands before the names of media files, but for the blanks at its start. -/
def mediaBase (dir : String) : List Char :=
  trimStartChars (dir.toList.rdropWhile (· = '/') ++ ['/'])

theorem toList_mediaPath {dir : String} (h : dir ≠ "") (resource : String) :
    (mediaPath dir resource).toList =
      dir.toList.rdropWhile (· = '/') ++ '/' :: resource.toList := by
  unfold mediaPath
  rw [if_neg (by simpa using h), String.toList_ofList]
  rfl

theorem mediaBase_ne_nil (dir : String) : mediaBase dir ≠ [] := by
  intro h
  have hall := List.dropWhile_eq_nil_iff.1 h '/' (by simp)
  exact absurd hall (by decide)

theorem trimChars_mediaPath {dir resource : String} (hd : dir ≠ "")
    (hr : EndsFirm resource.toList) :
    trimChars (mediaPath dir resource).toList = mediaBase dir ++ resource.toList := by
  have hstart : trimStartChars (mediaPath dir resource).toList =
      mediaBase dir ++ resource.toList := by
    rw [toList_mediaPath hd, List.append_cons, trimStartChars, List.dropWhile_append, if_neg]
    · rfl
    · rw [List.isEmpty_iff]
      exact mediaBase_ne_nil dir
  rw [trimChars, hstart]
  exact (hr.append _).trimEndChars

/-! ## Paths in braces -/

theorem toList_braced (path : String) :
    (Mode.template.source path).toList = '{' :: '{' :: (path.toList ++ ['}', '}']) :=
  String.toList_ofList

theorem pieces_braced {path : String} (h : BraceFree path.toList)
    (hne : trimChars path.toList ≠ []) :
    pieces (Mode.template.source path).toList = [.token (trimChars path.toList)] := by
  rw [toList_braced, pieces_closed (all_isInner_iff.2 h.2), bodyPiece_of_not_blank hne,
    pieces_eq_nil_iff.2 braceFree_nil]

theorem soleToken?_braced {path : String} (h : BraceFree path.toList)
    (hne : trimChars path.toList ≠ []) :
    soleToken? (trimChars (Mode.template.source path).toList) = some (trimChars path.toList) := by
  have hend : trimEndChars ('{' :: '{' :: (path.toList ++ ['}', '}'])) =
      '{' :: '{' :: (path.toList ++ ['}', '}']) := by
    rw [show '{' :: '{' :: (path.toList ++ ['}', '}']) =
      ('{' :: '{' :: (path.toList ++ ['}'])) ++ ['}'] by simp]
    exact trimEndChars_append_of_not_blank (by decide)
  rw [toList_braced, trimChars_eq_self (trimStartChars_cons_of_not_blank (by decide)) hend,
    soleToken?_eq_some_iff]
  exact ⟨path.toList, rfl, h.2, rfl, hne⟩

/-! ## The media files of a plan -/

namespace Plan

variable {plan : Plan} {path path' : String}

theorem Tidy.resource (h : plan.Tidy) (hp : path ∈ plan.mediaFiles) :
    ∃ resource, path = mediaPath plan.resourcesDir resource ∧ EndsFirm resource.toList := by
  rcases List.mem_append.1 hp with hp | hp
  · obtain ⟨p, hmem, rfl⟩ := List.mem_map.1 hp
    exact ⟨_, rfl, h.shots p hmem⟩
  · rw [Option.mem_toList] at hp
    obtain ⟨s, hs, rfl⟩ := Option.map_eq_some_iff.1 hp
    exact ⟨_, rfl, h.soundtrack s hs⟩

/-- Media files whose paths agree but for blanks are one file. -/
theorem Tidy.eq_of_trimChars (h : plan.Tidy) (hp : path ∈ plan.mediaFiles)
    (hp' : path' ∈ plan.mediaFiles) (he : trimChars path.toList = trimChars path'.toList) :
    path = path' := by
  obtain ⟨resource, rfl, hr⟩ := h.resource hp
  obtain ⟨resource', rfl, hr'⟩ := h.resource hp'
  rw [trimChars_mediaPath h.dir hr, trimChars_mediaPath h.dir hr', List.append_cancel_left_eq,
    String.toList_inj] at he
  rw [he]

theorem Tidy.trimChars_ne_nil (h : plan.Tidy) (hp : path ∈ plan.mediaFiles) :
    trimChars path.toList ≠ [] := by
  obtain ⟨resource, rfl, hr⟩ := h.resource hp
  rw [trimChars_mediaPath h.dir hr]
  exact List.append_ne_nil_of_left_ne_nil (mediaBase_ne_nil _) _

theorem Plain.mediaFile (h : plan.Plain) (ht : plan.Tidy) (hp : path ∈ plan.mediaFiles) :
    BraceFree path.toList := by
  have hpath {resource : String} (hr : BraceFree resource.toList) :
      BraceFree (mediaPath plan.resourcesDir resource).toList := by
    have hdir := all_isPlain_iff.2 h.dir
    have hpre : (plan.resourcesDir.toList.rdropWhile (· = '/')).all isPlain = true :=
      List.all_eq_true.2 fun c hc =>
        List.all_eq_true.1 hdir c ((List.rdropWhile_prefix _ _).subset hc)
    rw [toList_mediaPath ht.dir, ← all_isPlain_iff, List.all_append, hpre, List.all_cons,
      all_isPlain_iff.2 hr]
    rfl
  rcases List.mem_append.1 hp with hp | hp
  · obtain ⟨p, hmem, rfl⟩ := List.mem_map.1 hp
    exact hpath (h.shots p hmem)
  · rw [Option.mem_toList] at hp
    obtain ⟨s, hs, rfl⟩ := Option.map_eq_some_iff.1 hp
    exact hpath (h.soundtrack s hs)

theorem distinctMedia_eq (plan : Plan) : plan.distinctMedia = plan.mediaFiles.eraseDups := by
  unfold distinctMedia
  induction plan.mediaFiles using List.reverseRecOn with
  | nil => rfl
  | append_singleton paths path ih =>
    rw [List.foldl_append, List.foldl_cons, List.foldl_nil, ih, eraseDups_snoc, noted]
    by_cases hp : path ∈ paths
    · rw [if_pos hp, if_pos (List.contains_iff_mem.2 (List.mem_eraseDups.2 hp))]
    · rw [if_neg hp, if_neg fun hc => hp (List.mem_eraseDups.1 (List.contains_iff_mem.1 hc))]

end Plan

end VideoScript.ShotList
