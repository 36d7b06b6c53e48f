import VideoScript.Proofs.Placeholder.Splitting
import VideoScript.Proofs.ShotList.Building
import VideoScript.Proofs.Text.Trim

/-!
# The texts of a plan

Every text of a plan is cut out of the shot list, so a shot list without braces has a plan without
braces (`plain_of_readPlan`). Lines and cells lose the blanks at their ends, and what is empty then
counts as missing: the directory of the media files and the names of media files are not empty, and
those names end in no blank (`tidy_of_readPlan`).
-/

set_option autoImplicit false

namespace VideoScript.ShotList

open Text Placeholder

/-! ## Parts of a text -/

theorem subset_of_mem_splitAt {c : Char} {s piece : List Char} (h : piece ∈ splitAt c s) :
    piece ⊆ s := by
  induction s generalizing piece with
  | nil =>
    rw [splitAt, List.mem_singleton] at h
    rw [h]
    exact List.Subset.refl _
  | cons d rest ih =>
    rw [splitAt] at h
    split at h
    · rcases List.mem_cons.1 h with rfl | h
      · exact List.nil_subset _
      · exact List.subset_cons_of_subset _ (ih h)
    · split at h
      · rename_i hnone
        exact absurd hnone (splitAt_ne_nil c rest)
      · rename_i first others hsplit
        rcases List.mem_cons.1 h with rfl | h
        · exact List.cons_subset_cons d (ih (hsplit ▸ List.mem_cons_self))
        · exact List.subset_cons_of_subset _ (ih (hsplit ▸ List.mem_cons_of_mem _ h))

theorem trimChars_subset (s : List Char) : trimChars s ⊆ s := by
  obtain ⟨before, after, hs, -⟩ := exists_trimChars s
  intro c hc
  rw [hs]
  simp [hc]

theorem dropReturn_subset (line : List Char) : dropReturn line ⊆ line := by
  unfold dropReturn
  split
  · rename_i before h
    intro c hc
    rw [← List.mem_reverse, h]
    exact List.mem_cons_of_mem _ (List.mem_reverse.1 hc)
  · exact List.Subset.refl _

theorem subset_of_mem_lines {s line : List Char} (h : line ∈ lines s) : line ⊆ s := by
  unfold lines at h
  rcases List.mem_append.1 h with h | h
  · obtain ⟨piece, hp, rfl⟩ := List.mem_map.1 h
    exact fun c hc =>
      subset_of_mem_splitAt (List.dropLast_subset _ hp) (dropReturn_subset piece hc)
  · split at h
    · cases h
    · rename_i hne
      rw [List.mem_singleton.1 h]
      cases hl : (splitAt '\n' s).getLast? with
      | none => rw [hl] at hne; exact absurd rfl hne
      | some last => exact subset_of_mem_splitAt (List.mem_of_getLast? hl)

theorem subset_of_mem_numberedLines {s : List Char} {l : Nat × List Char}
    (h : l ∈ numberedLines s) : l.2 ⊆ s := by
  obtain ⟨⟨line, i⟩, hl, rfl⟩ := List.mem_map.1 h
  exact subset_of_mem_lines (List.fst_mem_of_mem_zipIdx hl)

theorem suffix_of_dropStart? {start s rest : List Char} (h : dropStart? start s = some rest) :
    rest <:+ s := by
  unfold dropStart? at h
  split at h
  · cases h
    exact List.drop_suffix _ _
  · cases h

theorem prefix_of_dropEnd? {tail s rest : List Char} (h : dropEnd? tail s = some rest) :
    rest <+: s := by
  unfold dropEnd? at h
  split at h
  · cases h
    exact List.take_prefix _ _
  · cases h

/-! ## Texts that end in no blank -/

/-- The text is not empty and ends in no blank. -/
def EndsFirm (s : List Char) : Prop := ∃ c, s.getLast? = some c ∧ isBlank c = false

theorem endsFirm_of_suffix {s t : List Char} (ht : trimEndChars t = t) (hs : s <:+ t)
    (hne : s ≠ []) : EndsFirm s := by
  have hlast : s.getLast? = t.getLast? := by
    obtain ⟨before, rfl⟩ := hs
    rw [List.getLast?_append_of_ne_nil _ hne]
  have htne : t ≠ [] := by
    rintro rfl
    exact hne (List.suffix_nil.1 hs)
  refine ⟨t.getLast htne, hlast.trans (List.getLast?_eq_some_getLast htne), ?_⟩
  rw [trimEndChars_eq, List.rdropWhile_eq_self_iff] at ht
  exact Bool.eq_false_iff.2 (ht htne)

theorem EndsFirm.ne_nil {s : List Char} (h : EndsFirm s) : s ≠ [] := by
  rintro rfl
  obtain ⟨c, hc, -⟩ := h
  cases hc

theorem EndsFirm.append {s : List Char} (h : EndsFirm s) (before : List Char) :
    EndsFirm (before ++ s) := by
  obtain ⟨c, hc, hb⟩ := h
  exact ⟨c, by rw [List.getLast?_append, hc]; rfl, hb⟩

theorem EndsFirm.trimEndChars {s : List Char} (h : EndsFirm s) : trimEndChars s = s := by
  obtain ⟨c, hc, hb⟩ := h
  rw [trimEndChars_eq, List.rdropWhile_eq_self_iff]
  intro hne
  rw [List.getLast?_eq_some_getLast hne, Option.some.injEq] at hc
  rw [hc, hb]
  exact Bool.false_ne_true

/-! ## Headers -/

theorem isBlank_of_isSpace {c : Char} (h : isSpace c = true) : isBlank c = true := by
  rcases Bool.or_eq_true_iff.1 h with h | h <;> rw [of_decide_eq_true h] <;> decide

theorem EndsFirm.rdropWhile_isSpace {s : List Char} (h : EndsFirm s) :
    s.rdropWhile isSpace = s := by
  obtain ⟨c, hc, hb⟩ := h
  rw [List.rdropWhile_eq_self_iff]
  intro hne hspace
  rw [List.getLast?_eq_some_getLast hne, Option.some.injEq] at hc
  rw [hc] at hspace
  rw [isBlank_of_isSpace hspace] at hb
  cases hb

theorem headerParts?_value {s key value : List Char} (h : headerParts? s = some (key, value))
    (hs : trimEndChars s = s) : value ⊆ s ∧ (value ≠ [] → EndsFirm value) := by
  unfold headerParts? at h
  obtain ⟨rest, hrest, h⟩ := Option.bind_eq_some_iff.1 h
  dsimp only at h
  split at h
  · cases h
  · split at h
    · rename_i after hafter
      cases h
      have hcolon : ':' :: after <:+ s := by
        rw [← hafter]
        exact (List.dropWhile_suffix _).trans ((List.dropWhile_suffix _).trans
          ((List.dropWhile_suffix _).trans (suffix_of_dropStart? hrest)))
      have hsuffix : after.dropWhile isSpace <:+ s :=
        (List.dropWhile_suffix _).trans ((List.suffix_cons _ _).trans hcolon)
      by_cases hne : after.dropWhile isSpace = []
      · rw [hne]
        exact ⟨List.nil_subset _, fun h => absurd rfl h⟩
      · -- the line ends in no blank, so there is nothing to take off the end of the value
        have hfirm := endsFirm_of_suffix hs hsuffix hne
        rw [show ((after.dropWhile isSpace).reverse.dropWhile isSpace).reverse =
          after.dropWhile isSpace from hfirm.rdropWhile_isSpace]
        exact ⟨hsuffix.subset, fun _ => hfirm⟩
    · cases h

/-- The text of a header, cut out of the shot list. -/
theorem headerValue?_eq_some {text : List Char} {key value : String}
    (h : headerValue? (headers text) key = some value) :
    value.toList ⊆ text ∧ EndsFirm value.toList := by
  obtain ⟨header, hfirst, h⟩ := Option.bind_eq_some_iff.1 h
  split at h
  · cases h
  · rename_i hne
    cases h
    obtain ⟨⟨line, s⟩, hl, hheader⟩ := List.mem_filterMap.1 (List.mem_of_find?_eq_some hfirst)
    obtain ⟨⟨key, value⟩, hparts, rfl⟩ := Option.map_eq_some_iff.1 hheader
    obtain ⟨hsub, hfirm⟩ := headerParts?_value hparts (trimEndChars_trimChars s)
    have hne : value ≠ [] := by
      rintro rfl
      exact hne rfl
    dsimp only
    rw [String.toList_ofList]
    exact ⟨fun c hc => subset_of_mem_numberedLines hl (trimChars_subset s (hsub hc)), hfirm hne⟩

/-! ## Rows -/

theorem cellsOf_subset {s cell : List Char} (h : cell ∈ cellsOf s) : cell ⊆ s := by
  obtain ⟨piece, hp, rfl⟩ := List.mem_map.1 h
  have hsub := subset_of_mem_splitAt hp
  intro c hc
  have hc := hsub (trimChars_subset piece hc)
  have hinner : c ∈ (trimChars s).dropWhile (· = '|') := by
    cases hd : dropEnd? ['|'] ((trimChars s).dropWhile (· = '|')) with
    | none =>
      rw [hd] at hc
      exact hc
    | some rest =>
      rw [hd] at hc
      exact (prefix_of_dropEnd? hd).subset hc
  exact trimChars_subset s ((List.dropWhile_suffix _).subset hinner)

theorem trimChars_of_mem_cellsOf {s cell : List Char} (h : cell ∈ cellsOf s) :
    trimChars cell = cell := by
  obtain ⟨piece, -, rfl⟩ := List.mem_map.1 h
  exact trimChars_trimChars piece

/-- A cell of a row is cut out of the shot list, without the blanks at its ends. -/
theorem cell_of_mem_rows {text : List Char} {r : Row} (hr : r ∈ rows text) {cell : String}
    (hc : cell ∈ r.cells) : cell.toList ⊆ text ∧ trimChars cell.toList = cell.toList := by
  obtain ⟨⟨line, s⟩, hl, hrow⟩ := List.mem_filterMap.1 hr
  have hl : (line, s) ∈ numberedLines text := (List.dropWhile_suffix _).subset hl
  unfold row? at hrow
  dsimp only at hrow
  split at hrow
  · cases hrow
  · split at hrow
    · cases hrow
    · cases hrow
      obtain ⟨chars, hchars, rfl⟩ := List.mem_map.1 hc
      rw [String.toList_ofList]
      exact ⟨fun c hc => subset_of_mem_numberedLines hl
        (trimChars_subset s (cellsOf_subset hchars hc)), trimChars_of_mem_cellsOf hchars⟩

theorem readShot_resource {cells : List String} {shot : Shot} (h : readShot cells = .ok shot) :
    shot.resource ∈ cells ∧ shot.resource ≠ "" := by
  unfold readShot at h
  split at h
  · rename_i resource _ _ _ _ _ _ _ _
    split at h
    · cases h
    · rename_i hne
      obtain ⟨_, -, h⟩ := bind_eq_ok h
      split at h
      · cases h
      · obtain ⟨_, -, h⟩ := bind_eq_ok h
        obtain ⟨_, -, h⟩ := bind_eq_ok h
        cases h
        refine ⟨by simp, ?_⟩
        rintro rfl
        exact hne rfl
  · cases h

/-- The name of a row's media file is cut out of the shot list and ends in no blank. -/
theorem resource_of_mem_readRows {text : List Char} {p : PlacedShot}
    (h : p ∈ (readRows (rows text)).1) :
    p.shot.resource.toList ⊆ text ∧ EndsFirm p.shot.resource.toList := by
  obtain ⟨r, hr, h⟩ := List.mem_filterMap.1 h
  split at h
  · rename_i shot hshot
    cases h
    obtain ⟨hmem, hne⟩ := readShot_resource hshot
    obtain ⟨hsub, htrim⟩ := cell_of_mem_rows hr hmem
    have hend : trimEndChars shot.resource.toList = shot.resource.toList := by
      rw [← htrim]
      exact trimEndChars_trimChars _
    exact ⟨hsub, endsFirm_of_suffix hend List.suffix_rfl
      fun he => hne (String.toList_eq_nil_iff.1 he)⟩
  · cases h

/-! ## Plans -/

/-- The names of files in a plan are not empty, and those of media files end in no blank. -/
structure Plan.Tidy (plan : Plan) : Prop where
  dir : plan.resourcesDir ≠ ""
  shots : ∀ p ∈ plan.shots, EndsFirm p.shot.resource.toList
  soundtrack : ∀ s, plan.soundtrack = some s → EndsFirm s.resource.toList

/-- No text that a plan brings into a document has a brace. -/
structure Plan.Plain (plan : Plan) : Prop where
  name : BraceFree plan.name.toList
  dir : BraceFree plan.resourcesDir.toList
  shots : ∀ p ∈ plan.shots, BraceFree p.shot.resource.toList
  soundtrack : ∀ s, plan.soundtrack = some s → BraceFree s.resource.toList
  background : ∀ s, plan.background = some s → BraceFree s.toList
  format : BraceFree plan.format.toList
  resolution : ∀ s, plan.resolution = some s → BraceFree s.toList

/-- Where the parts of a plan come from. -/
theorem readPlan_eq_ok {text : List Char} {plan : Plan} (h : readPlan text = .ok plan) :
    headerValue? (headers text) "name" = some plan.name ∧
    headerValue? (headers text) "resources_dir" = some plan.resourcesDir ∧
    readRows (rows text) = (plan.shots, plan.skipped) ∧
    readSoundtrack (headers text) = .ok plan.soundtrack ∧
    plan.background = headerValue? (headers text) "background" ∧
    plan.format = (headerValue? (headers text) "output_format").getD "mp4" ∧
    plan.resolution = headerValue? (headers text) "resolution" ∧
    plan.aspectRatio = aspectHeader? (headers text) := by
  unfold readPlan at h
  dsimp only at h
  split at h
  · rename_i name hname
    split at h
    · rename_i dir hdir
      obtain ⟨soundtrack, hsoundtrack, h⟩ := bind_eq_ok h
      obtain ⟨rate, -, h⟩ := bind_eq_ok h
      obtain ⟨capture, -, h⟩ := bind_eq_ok h
      cases h
      exact ⟨hname, hdir, rfl, hsoundtrack, rfl, rfl, rfl, rfl⟩
    · cases h
  · cases h

theorem resource_of_readSoundtrack {hs : List Header} {s : Option Soundtrack}
    (h : readSoundtrack hs = .ok s) : s.map (·.resource) = headerValue? hs "soundtrack" := by
  unfold readSoundtrack at h
  split at h
  · rename_i hnone
    cases h
    exact hnone.symm
  · rename_i resource hresource
    obtain ⟨volume, -, h⟩ := bind_eq_ok h
    cases h
    exact hresource.symm

theorem tidy_of_readPlan {text : List Char} {plan : Plan} (h : readPlan text = .ok plan) :
    plan.Tidy := by
  obtain ⟨-, hdir, hrows, hsoundtrack, -⟩ := readPlan_eq_ok h
  refine ⟨?_, fun p hp => ?_, fun s hs => ?_⟩
  · rintro he
    exact (headerValue?_eq_some hdir).2.ne_nil (String.toList_eq_nil_iff.2 he)
  · exact (resource_of_mem_readRows (by rwa [hrows])).2
  · rw [hs] at hsoundtrack
    exact (headerValue?_eq_some (resource_of_readSoundtrack hsoundtrack).symm).2

theorem braceFree_of_subset {s t : List Char} (h : s ⊆ t) (ht : BraceFree t) : BraceFree s :=
  ⟨fun hm => ht.1 (h hm), fun hm => ht.2 (h hm)⟩

/-- A shot list without braces has a plan without braces. -/
theorem plain_of_readPlan {text : List Char} {plan : Plan} (h : readPlan text = .ok plan)
    (ht : BraceFree text) : plan.Plain := by
  obtain ⟨hname, hdir, hrows, hsoundtrack, hbackground, hformat, hresolution, -⟩ := readPlan_eq_ok h
  have hheader {key value : String} (hv : headerValue? (headers text) key = some value) :
      BraceFree value.toList := braceFree_of_subset (headerValue?_eq_some hv).1 ht
  refine ⟨hheader hname, hheader hdir, fun p hp => ?_, fun s hs => ?_, fun s hs => ?_, ?_,
    fun s hs => ?_⟩
  · exact braceFree_of_subset (resource_of_mem_readRows (by rwa [hrows])).1 ht
  · rw [hs] at hsoundtrack
    exact hheader (resource_of_readSoundtrack hsoundtrack).symm
  · exact hheader (hbackground.symm.trans hs)
  · rw [hformat]
    cases hv : headerValue? (headers text) "output_format" with
    | none => exact all_isPlain_iff.1 (by decide)
    | some value => exact hheader hv
  · exact hheader (hresolution.symm.trans hs)

/-- A shot list that is converted has a plan. -/
theorem readPlan_of_convert {text : String} {mode : Mode} {c : Conversion}
    (h : convert text mode = .ok c) :
    ∃ plan, readPlan text.toList = .ok plan ∧ plan.convert mode = c := by
  rw [convert_eq] at h
  cases hread : readPlan text.toList with
  | error e =>
    rw [hread] at h
    cases h
  | ok plan =>
    rw [hread] at h
    exact ⟨plan, rfl, Except.ok.inj h⟩

end VideoScript.ShotList
