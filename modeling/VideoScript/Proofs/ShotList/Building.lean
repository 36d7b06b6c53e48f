import VideoScript.Proofs.Lists
import VideoScript.Proofs.ShotList.Plan

/-!
# The lines give the plan

A conversion goes through the lines with a `Builder`, which notes media files and unknown values as
it makes clips. `Table.after` says what it has after rows, all at once, and each line keeps to that
(`takeLine_after`): a row that fails has noted nothing by then (`run_clipOf`). So the conversion of
a text is that of its plan (`convert_eq`).
-/

set_option autoImplicit false

namespace VideoScript.ShotList

open Text Json

/-! ## Cells -/

section
variable (b : Builder)

/-- A shot is noted: its media file and its unknown values. -/
def Builder.place (p : PlacedShot) : Builder :=
  { b with
    media := noted b.media (mediaPath b.resourcesDir p.shot.resource)
    dropped := b.dropped ++ p.dropped }

theorem run_sourceOf (resource : String) : (sourceOf resource).run b =
    (b.mode.source (mediaPath b.resourcesDir resource),
      { b with media := noted b.media (mediaPath b.resourcesDir resource) }) := by
  unfold noted
  show (if (!b.media.contains (mediaPath b.resourcesDir resource)) = true then _ else _ :
    StateM Builder String).run b = _
  cases b.media.contains (mediaPath b.resourcesDir resource) <;> rfl

theorem canonical?_empty (kind : Vocabulary) : kind.canonical? "" = none := by
  cases kind <;> decide

theorem run_spelling? (kind : Vocabulary) (line : Nat) (cell : String) :
    (spelling? kind line cell).run b =
      (kind.canonical? cell, { b with dropped := b.dropped ++ unknownValue line kind cell }) := by
  unfold spelling? unknownValue
  by_cases hempty : cell = ""
  · subst hempty
    rw [canonical?_empty]
    simp
    rfl
  · have hfalse : cell.isEmpty = false := by simpa using hempty
    rw [hfalse]
    cases kind.canonical? cell with
    | none => rfl
    | some known =>
      simp
      rfl

section
variable {α β : Type}

/-- A reading that fails leaves the builder as it is. -/
theorem run_read_bind (x : Except SkipReason α) (f : α → ExceptT SkipReason (StateM Builder) β) :
    ((liftM x >>= f : ExceptT SkipReason (StateM Builder) β)).run.run b =
      match x with
      | .ok a => (f a).run.run b
      | .error reason => (.error reason, b) := by
  cases x <;> rfl

theorem run_build_bind (x : Build α) (f : α → ExceptT SkipReason (StateM Builder) β) :
    ((liftM x >>= f : ExceptT SkipReason (StateM Builder) β)).run.run b =
      (f (x.run b).1).run.run (x.run b).2 := rfl

end

theorem run_clipOf (line : Nat) (cells : List String) : (clipOf line cells).run.run b =
    match readShot cells with
    | .ok shot => (.ok (shot.clip b.mode b.resourcesDir), b.place ⟨line, shot⟩)
    | .error reason => (.error reason, b) := by
  unfold clipOf
  split
  · rename_i number resource trim duration transitionIn effect filter transitionOut volume rest
    conv_rhs => dsimp only [readShot, bind, Except.bind, pure, Except.pure]
    by_cases hresource : resource.isEmpty = true
    · rw [if_pos hresource, if_pos hresource]
      rfl
    rw [if_neg hresource, if_neg hresource, run_read_bind]
    cases readDuration duration with
    | error reason => rfl
    | ok length =>
    dsimp only
    by_cases hlength : length ≤ 0.0
    · rw [if_pos hlength, if_pos hlength]
      rfl
    rw [if_neg hlength, if_neg hlength, run_read_bind]
    cases readTrim (isVideoFile resource) trim with
    | error reason => rfl
    | ok trim =>
    dsimp only
    rw [run_read_bind]
    cases readVolume volume with
    | error reason => rfl
    | ok volume =>
    simp only [run_build_bind, run_sourceOf, run_spelling?]
    refine congrArg (Prod.mk _) ?_
    simp only [Builder.place, PlacedShot.dropped, List.append_assoc]
  · rename_i hcells
    have hread : readShot cells = .error (.tooFewCells cells.length) := by
      unfold readShot
      split
      · exact (hcells _ _ _ _ _ _ _ _ _ _ rfl).elim
      · rfl
    rw [hread]
    rfl

end

/-! ## Rows -/

variable {mode : Mode} {dir : String} {rs : List Row} {begun : Bool}

/-- What rows have given. -/
def Table.after (mode : Mode) (dir : String) (rs : List Row) (begun : Bool) : Table where
  builder :=
    { resourcesDir := dir, mode
      media := ((readRows rs).1.map fun p => mediaPath dir p.shot.resource).foldl noted []
      dropped := (readRows rs).1.flatMap PlacedShot.dropped }
  clips := (readRows rs).1.map fun p => p.shot.clip mode dir
  skipped := (readRows rs).2
  begun

theorem readRows_append (rs rs' : List Row) : readRows (rs ++ rs') =
    ((readRows rs).1 ++ (readRows rs').1, (readRows rs).2 ++ (readRows rs').2) := by
  rw [readRows, List.filterMap_append, List.filterMap_append]
  rfl

namespace Table

theorem takeCells_after (line : Nat) (cells : List String) :
    (after mode dir rs begun).takeCells line cells =
      after mode dir (rs ++ [⟨line, cells⟩]) begun := by
  unfold takeCells
  rw [run_clipOf, after, after, readRows_append]
  cases hshot : readShot cells with
  | ok shot =>
    have hrow : readRows [⟨line, cells⟩] = ([⟨line, shot⟩], []) := by simp [readRows, hshot]
    simp [hrow, Builder.place]
  | error reason =>
    have hrow : readRows [⟨line, cells⟩] = ([], [⟨line, reason⟩]) := by simp [readRows, hshot]
    simp [hrow]

/-- A line after the head is a row or gives nothing. -/
theorem takeLine_after (line : Nat) (s : List Char) :
    (after mode dir rs true).takeLine line s =
      after mode dir (rs ++ (row? line s).toList) true := by
  unfold takeLine row?
  dsimp only
  cases isTableHead (trimChars s)
  · cases startsWith ['|'] (trimChars s)
    · simp [after]
    · cases (cellsOf (trimChars s)).all isRuleCell
      · exact takeCells_after line _
      · simp [after]
  · simp [after]

theorem foldl_takeLine_after (ls : List (Nat × List Char)) :
    ls.foldl (fun t l => t.takeLine l.1 l.2) (after mode dir rs true) =
      after mode dir (rs ++ ls.filterMap fun l => row? l.1 l.2) true := by
  induction ls generalizing rs with
  | nil => rw [List.foldl_nil, List.filterMap_nil, List.append_nil]
  | cons l ls ih =>
    rw [List.foldl_cons, takeLine_after, ih, List.append_assoc, List.filterMap_cons]
    cases row? l.1 l.2 <;> rfl

/-- The lines before the head give nothing. -/
theorem foldl_takeLine_start (ls : List (Nat × List Char)) :
    ls.foldl (fun t l => t.takeLine l.1 l.2) (start mode dir) =
      after mode dir ((ls.dropWhile fun l => !isTableHead (trimChars l.2)).filterMap
        fun l => row? l.1 l.2) (ls.any fun l => isTableHead (trimChars l.2)) := by
  induction ls with
  | nil => rfl
  | cons l ls ih =>
    rw [List.foldl_cons, List.any_cons]
    cases h : isTableHead (trimChars l.2)
    · have hskip : (start mode dir).takeLine l.1 l.2 = start mode dir := by
        simp [takeLine, h, start]
      rw [hskip, ih, List.dropWhile_cons_of_pos (by simp [h]), Bool.false_or]
    · have hbegin : (start mode dir).takeLine l.1 l.2 = after mode dir [] true := by
        simp [takeLine, h, start, after, readRows]
      have hrow : row? l.1 l.2 = none := by simp [row?, h]
      rw [hbegin, foldl_takeLine_after, List.dropWhile_cons_of_neg (by simp [h]),
        List.filterMap_cons, hrow, List.nil_append, Bool.true_or]

/-- The lines of a text give its rows. -/
theorem ofText_eq (text : List Char) : ofText mode dir text = after mode dir (rows text)
    ((numberedLines text).any fun l => isTableHead (trimChars l.2)) :=
  foldl_takeLine_start _

end Table

/-! ## Headers -/

theorem soundtrackOf_eq (hs : List Header) (b : Builder) :
    soundtrackOf hs b = (readSoundtrack hs).map fun s =>
      (s.map (·.json b.mode b.resourcesDir),
        { b with media :=
            (s.map fun s => mediaPath b.resourcesDir s.resource).toList.foldl noted b.media }) := by
  unfold soundtrackOf readSoundtrack
  cases headerValue? hs "soundtrack" with
  | none => rfl
  | some resource =>
    dsimp only
    rw [run_sourceOf]
    cases numberOfHeader hs "soundtrack_volume" Decimal.readFloat? <;> rfl

theorem aspectOf_eq (hs : List Header) (b : Builder) : (aspectOf hs).run b =
    (acceptedAspect (aspectHeader? hs),
      { b with dropped := b.dropped ++ unknownAspect (aspectHeader? hs) }) := by
  unfold aspectOf acceptedAspect unknownAspect
  cases aspectHeader? hs with
  | none =>
    rw [List.append_nil]
    rfl
  | some h =>
    dsimp only [Option.bind_some]
    cases Vocabulary.aspectRatio.accepts h.value with
    | false => rfl
    | true =>
      rw [if_pos rfl, if_pos rfl, if_pos rfl, List.append_nil]
      rfl

/-! ## The whole -/

/-- **The fold gives the plan.** A text is converted to what its plan converts to. -/
theorem convert_eq (text : String) (mode : Mode) :
    convert text mode = (readPlan text.toList).map (·.convert mode) := by
  unfold convert readPlan
  dsimp only
  cases headerValue? (headers text.toList) "name" with
  | none => rfl
  | some name =>
    cases headerValue? (headers text.toList) "resources_dir" with
    | none => rfl
    | some dir =>
    dsimp only
    rw [Table.ofText_eq, soundtrackOf_eq]
    cases readSoundtrack (headers text.toList) with
    | error e => rfl
    | ok soundtrack =>
    conv_lhs => dsimp only [Except.map, bind, Except.bind]
    rw [aspectOf_eq]
    dsimp only [outputOf]
    cases numberOfHeader (headers text.toList) "fps" (natural? maxHeaderNumber) with
    | error e => rfl
    | ok rate =>
    cases numberOfHeader (headers text.toList) "thumbnail_capture" (natural? maxHeaderNumber) with
    | error e => rfl
    | ok capture =>
    have hmedia (paths more : List String) : more.foldl noted (paths.foldl noted []) =
        (paths ++ more).foldl noted [] := List.foldl_append.symm
    dsimp only [Table.after, Except.map, pure, Except.pure]
    rw [hmedia, List.length_map]
    cases mode <;> rfl

end VideoScript.ShotList
