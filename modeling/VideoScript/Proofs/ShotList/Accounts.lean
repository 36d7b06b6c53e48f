import VideoScript.Proofs.ShotList.Rows

/-!
# The account of a table

Each row of a shot list is in the conversion once: as a clip, or as a skipped row with the number of
its line (`rows_accounted`). A skipped row does nothing else, as the text without its line shows
(`readPlan_dropLine`): the lines after it move up (`numberedLines_dropLine`), the headers and the
other rows stay what they were (`headers_dropLine`, `dataLines_dropLine`), and so does all that is
made of them.
-/

set_option autoImplicit false

namespace VideoScript.ShotList

open Json Text

variable {text : List Char} {plan : Plan} {mode : Mode} {n : Nat}

/-! ## Numbers without a line -/

/-- The number that a line has after line `n` is taken out. -/
def moveUp (n line : Nat) : Nat := if n < line then line - 1 else line

def Header.moveUp (n : Nat) (h : Header) : Header := { h with line := ShotList.moveUp n h.line }

def PlacedShot.moveUp (n : Nat) (p : PlacedShot) : PlacedShot :=
  { p with line := ShotList.moveUp n p.line }

def UnusedRow.moveUp (n : Nat) (u : UnusedRow) : UnusedRow :=
  { u with line := ShotList.moveUp n u.line }

def UnknownValue.moveUp (n : Nat) (v : UnknownValue) : UnknownValue :=
  { v with line := ShotList.moveUp n v.line }

/-- The plan without what line `n` gives, if that is a skipped row. -/
def Plan.withoutLine (plan : Plan) (n : Nat) : Plan :=
  { plan with
    shots := plan.shots.map (·.moveUp n)
    skipped := (plan.skipped.filter fun u => u.line ≠ n).map (·.moveUp n)
    aspectRatio := plan.aspectRatio.map (·.moveUp n) }

/-- The conversion without what line `n` gives, if that is a skipped row. -/
def Conversion.withoutLine (c : Conversion) (n : Nat) : Conversion :=
  { c with
    skipped := (c.skipped.filter fun u => u.line ≠ n).map (·.moveUp n)
    dropped := c.dropped.map (·.moveUp n) }

theorem moveUp_of_le {line : Nat} (h : line ≤ n) : moveUp n line = line :=
  if_neg (by omega)

theorem moveUp_succ {line : Nat} (h : n ≤ line) : moveUp n (line + 1) = line := by
  rw [moveUp, if_pos (by omega)]
  omega

/-! ## Lines without a line -/

/-- Taking an item out of a list moves up the indices after it. -/
theorem zipIdx_eraseIdx {α : Type} (xs : List α) (i start : Nat) :
    (xs.eraseIdx i).zipIdx start = ((xs.zipIdx start).filter fun x => x.2 ≠ start + i).map fun x =>
      (x.1, moveUp (start + i) x.2) := by
  induction xs generalizing i start with
  | nil => rfl
  | cons x xs ih =>
    cases i with
    | zero =>
      have hkeep : ((x, start) :: xs.zipIdx (start + 1)).filter (fun x => x.2 ≠ start + 0) =
          xs.zipIdx (start + 1) := by
        rw [List.filter_cons_of_neg (by simp), List.filter_eq_self]
        intro y hy
        have hle := List.le_snd_of_mem_zipIdx hy
        simp only [decide_eq_true_eq]
        omega
      rw [List.eraseIdx_cons_zero, List.zipIdx_cons, hkeep, List.zipIdx_succ, List.map_map]
      conv_lhs => rw [← List.map_id (xs.zipIdx start)]
      refine List.map_congr_left fun y hy => ?_
      have hle := List.le_snd_of_mem_zipIdx hy
      simp [moveUp_succ hle]
    | succ i =>
      have hne : start ≠ start + (i + 1) := by omega
      have hsucc : start + 1 + i = start + (i + 1) := by omega
      rw [List.eraseIdx_cons_succ, List.zipIdx_cons, List.zipIdx_cons, ih,
        List.filter_cons_of_pos (by simp), List.map_cons, moveUp_of_le (by omega), hsucc]

theorem numberedLines_eq (text : List Char) :
    numberedLines text = ((lines text).zipIdx 1).map Prod.swap := by
  rw [List.zipIdx_succ, List.map_map]
  rfl

/-- Taking a line out of a text moves up the lines after it. -/
theorem numberedLines_dropLine (text : List Char) (i : Nat) :
    numberedLines (dropLine i text) =
      ((numberedLines text).filter fun l => l.1 ≠ i + 1).map fun l =>
        (moveUp (i + 1) l.1, l.2) := by
  rw [numberedLines_eq, numberedLines_eq, lines_dropLine, zipIdx_eraseIdx, List.filter_map,
    List.map_map, List.map_map, Nat.add_comm 1 i]
  rfl

/-- What is read off the lines one by one, when the line that is taken out gives nothing. -/
theorem filterMap_withoutLine {α : Type} {f : Nat × List Char → Option α} {g : α → α}
    {ls : List (Nat × List Char)} (hidle : ∀ l ∈ ls, l.1 = n → f l = none)
    (hmove : ∀ l, f (moveUp n l.1, l.2) = (f l).map g) :
    ((ls.filter fun l => l.1 ≠ n).map fun l => (moveUp n l.1, l.2)).filterMap f =
      (ls.filterMap f).map g := by
  rw [List.filterMap_map, List.filterMap_filter, List.map_filterMap]
  refine List.filterMap_congr fun l hl => ?_
  by_cases h : l.1 = n
  · simp [h, hidle l hl h]
  · simp [h, hmove l]

/-- Line `n` is no head and no header, and it gives no shot. -/
structure Idle (text : List Char) (n : Nat) : Prop where
  header : ∀ l ∈ numberedLines text, l.1 = n → header? l.1 l.2 = none
  head : ∀ l ∈ numberedLines text, l.1 = n → isTableHead (trimChars l.2) = false
  shot : ∀ l ∈ dataLines text, l.1 = n → ∃ reason, lineShot l.2 = .error reason

variable {i : Nat}

theorem headers_dropLine (h : Idle text (i + 1)) :
    headers (dropLine i text) = (headers text).map (·.moveUp (i + 1)) := by
  rw [headers, numberedLines_dropLine]
  refine filterMap_withoutLine h.header fun l => ?_
  unfold header?
  rw [Option.map_map]
  rfl

/-- Items that pass the test may be taken out before those at the front that pass it. -/
theorem dropWhile_filter {α : Type} {p q : α → Bool} {xs : List α}
    (h : ∀ x ∈ xs, p x = false → q x = true) :
    (xs.filter p).dropWhile q = (xs.dropWhile q).filter p := by
  induction xs with
  | nil => rfl
  | cons x xs ih =>
    obtain ⟨hx, hxs⟩ := List.forall_mem_cons.1 h
    cases hq : q x with
    | true =>
      rw [List.dropWhile_cons_of_pos hq, ← ih hxs, List.filter_cons]
      split
      · rw [List.dropWhile_cons_of_pos hq]
      · rfl
    | false =>
      have hp : p x = true := by
        by_contra hp
        have hq' := hx (Bool.eq_false_iff.2 hp)
        rw [hq] at hq'
        cases hq'
      rw [List.dropWhile_cons_of_neg (by simp [hq]), List.filter_cons_of_pos hp,
        List.dropWhile_cons_of_neg (by simp [hq])]

theorem dataLines_dropLine (h : Idle text (i + 1)) :
    dataLines (dropLine i text) = ((dataLines text).filter fun l => l.1 ≠ i + 1).map fun l =>
      (moveUp (i + 1) l.1, l.2) := by
  have hhead : ∀ l ∈ numberedLines text, decide (l.1 ≠ i + 1) = false →
      (!isTableHead (trimChars l.2)) = true := by
    intro l hl hn
    rw [h.head l hl (by simpa using hn)]
    rfl
  rw [dataLines, numberedLines_dropLine, List.dropWhile_map]
  show List.filter _ (List.map _ (List.dropWhile (fun l => !isTableHead (trimChars l.2))
    ((numberedLines text).filter fun l => l.1 ≠ i + 1))) = _
  rw [dropWhile_filter hhead, List.filter_map]
  show List.map _ (List.filter (fun l : Nat × List Char => isDataLine l.2) _) = _
  rw [List.filter_comm]
  rfl

/-! ## Headers on other lines -/

section
variable (hs : List Header)

theorem firstHeader?_moveUp (key : String) :
    firstHeader? (hs.map (·.moveUp n)) key = (firstHeader? hs key).map (·.moveUp n) := by
  rw [firstHeader?, List.find?_map]
  rfl

theorem headerValue?_moveUp (key : String) :
    headerValue? (hs.map (·.moveUp n)) key = headerValue? hs key := by
  rw [headerValue?, firstHeader?_moveUp, headerValue?]
  cases firstHeader? hs key <;> rfl

theorem aspectHeader?_moveUp :
    aspectHeader? (hs.map (·.moveUp n)) = (aspectHeader? hs).map (·.moveUp n) := by
  rw [aspectHeader?, firstHeader?_moveUp, aspectHeader?]
  cases h : firstHeader? hs "aspect_ratio" with
  | none => rfl
  | some header =>
    show (if header.value.isEmpty then none else some (header.moveUp n)) =
      Option.map _ (if header.value.isEmpty then none else some header)
    split <;> rfl

theorem numberOfHeader_moveUp {α : Type} (key : String) (read : List Char → Option α) :
    numberOfHeader (hs.map (·.moveUp n)) key read = numberOfHeader hs key read := by
  rw [numberOfHeader, headerValue?_moveUp, numberOfHeader]

theorem readSoundtrack_moveUp :
    readSoundtrack (hs.map (·.moveUp n)) = readSoundtrack hs := by
  rw [readSoundtrack, headerValue?_moveUp, numberOfHeader_moveUp, readSoundtrack]

end

/-! ## The plan without a line -/

theorem readRows_dropLine (h : Idle text (i + 1)) :
    readRows (rows (dropLine i text)) =
      ((readRows (rows text)).1.map (·.moveUp (i + 1)),
        ((readRows (rows text)).2.filter fun u => u.line ≠ i + 1).map (·.moveUp (i + 1))) := by
  rw [readRows_lines, readRows_lines, dataLines_dropLine h]
  refine congrArg₂ Prod.mk ?_ ?_
  · refine filterMap_withoutLine (fun l hl hn => ?_) fun l => ?_
    · obtain ⟨reason, hreason⟩ := h.shot l hl hn
      rw [placedShot?, hreason]
      rfl
    · rw [placedShot?, placedShot?, Option.map_map]
      rfl
  · rw [List.filter_filterMap, List.map_filterMap, List.filterMap_map, List.filterMap_filter]
    refine List.filterMap_congr fun l _ => ?_
    rw [Function.comp_apply, unusedRow?, unusedRow?]
    cases lineShot l.2 with
    | ok shot => simp
    | error reason =>
      by_cases hn : l.1 = i + 1
      · simp [hn]
      · simp [hn, UnusedRow.moveUp]

theorem readPlan_dropLine (h : Idle text (i + 1)) :
    readPlan (dropLine i text) = (readPlan text).map (·.withoutLine (i + 1)) := by
  unfold readPlan
  rw [headers_dropLine h, readRows_dropLine h]
  simp only [headerValue?_moveUp, aspectHeader?_moveUp, numberOfHeader_moveUp,
    readSoundtrack_moveUp]
  cases headerValue? (headers text) "name" with
  | none => rfl
  | some name =>
    cases headerValue? (headers text) "resources_dir" with
    | none => rfl
    | some dir =>
      cases readSoundtrack (headers text) with
      | error e => rfl
      | ok soundtrack =>
        cases numberOfHeader (headers text) "fps" (natural? maxHeaderNumber) with
        | error e => rfl
        | ok rate =>
          cases numberOfHeader (headers text) "thumbnail_capture" (natural? maxHeaderNumber) <;> rfl

/-! ## The conversion without a line -/

namespace Plan

theorem timeline_withoutLine : (plan.withoutLine n).timeline mode = plan.timeline mode := by
  have hclips : (plan.withoutLine n).clips mode = plan.clips mode := by
    unfold clips withoutLine
    rw [List.map_map]
    rfl
  unfold timeline
  show Json.object (_ ++ _ ++ [("tracks", .array [.object
    [("clips", .array ((plan.withoutLine n).clips mode))]])]) = _
  rw [hclips]
  rfl

theorem output_withoutLine : (plan.withoutLine n).output = plan.output := by
  have haspect : (plan.withoutLine n).knownAspect = plan.knownAspect := by
    unfold knownAspect withoutLine
    cases plan.aspectRatio <;> rfl
  unfold output
  rw [haspect]
  rfl

theorem merge_withoutLine : (plan.withoutLine n).merge = plan.merge := by
  have hmedia : (plan.withoutLine n).mediaFiles = plan.mediaFiles := by
    unfold mediaFiles withoutLine
    rw [List.map_map]
    rfl
  unfold merge distinctMedia
  rw [hmedia]

theorem document_withoutLine : (plan.withoutLine n).document mode = plan.document mode := by
  unfold document
  rw [timeline_withoutLine, output_withoutLine, merge_withoutLine]
  rfl

theorem unknownValue_moveUp (line : Nat) (kind : Vocabulary) (cell : String) :
    unknownValue (moveUp n line) kind cell = (unknownValue line kind cell).map (·.moveUp n) := by
  unfold unknownValue
  split <;> rfl

theorem dropped_withoutLine :
    (plan.withoutLine n).dropped = plan.dropped.map (·.moveUp n) := by
  have hshots : (plan.shots.map (·.moveUp n)).flatMap PlacedShot.dropped =
      (plan.shots.flatMap PlacedShot.dropped).map (·.moveUp n) := by
    rw [List.flatMap_map, List.map_flatMap]
    refine List.flatMap_congr fun p _ => ?_
    simp only [PlacedShot.dropped, PlacedShot.moveUp, unknownValue_moveUp, List.map_append]
  unfold dropped
  rw [List.map_append, ← hshots]
  refine congrArg₂ (· ++ ·) rfl ?_
  unfold withoutLine unknownAspect
  cases plan.aspectRatio with
  | none => rfl
  | some h =>
    simp only [Option.map_some, Header.moveUp]
    split <;> rfl

theorem convert_withoutLine :
    (plan.withoutLine n).convert mode = (plan.convert mode).withoutLine n := by
  unfold convert Conversion.withoutLine
  rw [document_withoutLine, dropped_withoutLine]
  simp only [withoutLine, List.length_map]

end Plan

/-! ## Skipped rows -/

section
variable {u : UnusedRow}

theorem header?_of_isDataLine {s : List Char} (h : isDataLine s = true) (n : Nat) :
    header? n s = none := by
  have hbar : ['|'] <+: trimChars s := by
    have hstart := (Bool.and_eq_true_iff.1 (Bool.and_eq_true_iff.1 h).1).1
    exact List.isPrefixOf_iff_prefix.1 hstart
  obtain ⟨rest, hrest⟩ := hbar
  rw [header?, ← hrest]
  rfl

theorem exists_line_of_skipped (h : readPlan text = .ok plan) (hu : u ∈ plan.skipped) :
    ∃ s, (u.line, s) ∈ dataLines text ∧ lineShot s = .error u.reason := by
  rw [skipped_lines h] at hu
  obtain ⟨⟨n, s⟩, hmem, hu⟩ := List.mem_filterMap.1 hu
  unfold unusedRow? at hu
  split at hu
  · cases hu
  · rename_i reason hreason
    cases hu
    exact ⟨s, hmem, hreason⟩

/-- The line of a skipped row is idle. -/
theorem idle_of_skipped (h : readPlan text = .ok plan) (hu : u ∈ plan.skipped) :
    Idle text u.line := by
  obtain ⟨s, hs, hshot⟩ := exists_line_of_skipped h hu
  obtain ⟨hmem, hdata⟩ := mem_dataLines hs
  have hline {l : Nat × List Char} (hl : l ∈ numberedLines text) (hn : l.1 = u.line) : l.2 = s := by
    obtain ⟨n, s'⟩ := l
    obtain rfl : n = u.line := hn
    exact eq_of_mem_numberedLines hl hmem
  refine ⟨fun l hl hn => ?_, fun l hl hn => ?_, fun l hl hn => ?_⟩
  · rw [hline hl hn]
    exact header?_of_isDataLine hdata l.1
  · rw [hline hl hn]
    simpa using (Bool.and_eq_true_iff.1 hdata).2
  · rw [hline (mem_dataLines hl).1 hn]
    exact ⟨u.reason, hshot⟩

theorem line_of_mem_unknownValue {line : Nat} {kind : Vocabulary} {cell : String}
    {d : UnknownValue} (h : d ∈ unknownValue line kind cell) : d.line = line := by
  unfold unknownValue at h
  split at h
  · cases h
  · rw [List.mem_singleton.1 h]

/-- A value is left out on a line that gives a shot or is a header. -/
theorem line_of_mem_dropped (h : readPlan text = .ok plan) {d : UnknownValue}
    (hd : d ∈ plan.dropped) :
    (∃ l ∈ dataLines text, l.1 = d.line ∧ ∃ shot, lineShot l.2 = .ok shot) ∨
      ∃ l ∈ numberedLines text, l.1 = d.line ∧ header? l.1 l.2 ≠ none := by
  rcases List.mem_append.1 hd with hd | hd
  · obtain ⟨p, hp, hd⟩ := List.mem_flatMap.1 hd
    have hline : d.line = p.line := by
      simp only [PlacedShot.dropped, List.mem_append] at hd
      rcases hd with ((hd | hd) | hd) | hd <;> exact line_of_mem_unknownValue hd
    rw [shots_lines h] at hp
    obtain ⟨l, hl, hp⟩ := List.mem_filterMap.1 hp
    obtain ⟨shot, hshot, rfl⟩ := Option.map_eq_some_iff.1 hp
    exact .inl ⟨l, hl, hline.symm, shot, toOption_eq_some_iff.1 hshot⟩
  · obtain ⟨-, -, -, -, -, -, -, haspect⟩ := readPlan_eq_ok h
    rw [haspect] at hd
    cases hheader : aspectHeader? (headers text) with
    | none =>
      rw [hheader] at hd
      cases hd
    | some header =>
      have hmem : header ∈ headers text := by
        obtain ⟨first, hfirst, hrest⟩ := Option.bind_eq_some_iff.1 hheader
        split at hrest
        · cases hrest
        · cases hrest
          exact List.mem_of_find?_eq_some hfirst
      have hline : d.line = header.line := by
        rw [hheader, unknownAspect] at hd
        split at hd
        · cases hd
        · rw [List.mem_singleton.1 hd]
      obtain ⟨l, hl, hparts⟩ := List.mem_filterMap.1 hmem
      have hparts : header? l.1 l.2 = some header := hparts
      refine .inr ⟨l, hl, ?_, by rw [hparts]; exact Option.some_ne_none _⟩
      obtain ⟨_, -, rfl⟩ := Option.map_eq_some_iff.1 hparts
      exact hline.symm

theorem dropped_apart (h : readPlan text = .ok plan) (hu : u ∈ plan.skipped) {d : UnknownValue}
    (hd : d ∈ plan.dropped) : d.line ≠ u.line := by
  have hidle := idle_of_skipped h hu
  intro heq
  rcases line_of_mem_dropped h hd with ⟨l, hl, hn, shot, hshot⟩ | ⟨l, hl, hn, hheader⟩
  · obtain ⟨reason, hreason⟩ := hidle.shot l hl (hn.trans heq)
    rw [hshot] at hreason
    cases hreason
  · exact hheader (hidle.header l hl (hn.trans heq))

end

/-! ## The account -/

theorem length_add_length (ls : List (Nat × List Char)) :
    (ls.filterMap placedShot?).length + (ls.filterMap unusedRow?).length = ls.length := by
  induction ls with
  | nil => rfl
  | cons l ls ih =>
    rw [List.filterMap_cons, List.filterMap_cons, placedShot?, unusedRow?]
    cases lineShot l.2 with
    | ok shot =>
      simp only [Except.toOption, Option.map_some, List.length_cons]
      omega
    | error reason =>
      simp only [Except.toOption, Option.map_none, List.length_cons]
      omega

/-- A conversion accounts for the rows of a text: each row gives a clip or a record with the number
of its line, read off its text alone, in the order of the rows; and a skipped row adds nothing else,
so that the text without its line gives the same but for the record and the numbers of lines. -/
structure Accounts (text : List Char) (mode : Mode) (c : Conversion) : Prop where
  clips : clipsOf c.document =
    (dataLines text).filterMap fun l => (lineClip c.resourcesDir mode l.2).toOption
  skipped : c.skipped = (dataLines text).filterMap fun l =>
    match lineClip c.resourcesDir mode l.2 with
    | .ok _ => none
    | .error reason => some ⟨l.1, reason⟩
  length_clips : c.clips = (clipsOf c.document).length
  total : c.clips + c.skipped.length = (dataLines text).length
  dropped : ∀ u ∈ c.skipped, ∀ d ∈ c.dropped, d.line ≠ u.line
  alone : ∀ u ∈ c.skipped,
    convert (.ofList (dropLine (u.line - 1) text)) mode = .ok (c.withoutLine u.line)

/-- **Every row is accounted for.** -/
theorem rows_accounted {text : String} {mode : Mode} {c : Conversion}
    (h : convert text mode = .ok c) : Accounts text.toList mode c := by
  obtain ⟨plan, hplan, rfl⟩ := readPlan_of_convert h
  refine ⟨clips_lines hplan, ?_, ?_, ?_, fun u hu d hd => dropped_apart hplan hu hd, fun u hu => ?_⟩
  · show plan.skipped = _
    rw [skipped_lines hplan]
    refine List.filterMap_congr fun l _ => ?_
    rw [unusedRow?, lineClip]
    cases lineShot l.2 <;> rfl
  · show plan.shots.length = (clipsOf (plan.document mode)).length
    rw [clipsOf_document, Plan.clips, List.length_map]
  · show plan.shots.length + plan.skipped.length = _
    rw [shots_lines hplan, skipped_lines hplan, length_add_length]
  · have hidle := idle_of_skipped hplan hu
    obtain ⟨s, hs, -⟩ := exists_line_of_skipped hplan hu
    obtain ⟨i, hi, -⟩ := mem_numberedLines_iff.1 (mem_dataLines hs).1
    rw [hi] at hidle ⊢
    rw [convert_eq, String.toList_ofList, Nat.add_sub_cancel, readPlan_dropLine hidle, hplan]
    exact congrArg Except.ok Plan.convert_withoutLine

/-- A shot list with a row that gives no shot before one with an unknown transition. -/
def unevenList : String :=
  "## name: Demo\n## resources_dir: media\n| # |\n" ++
  "| 1 | | | 3s | | | | | | |\n| 2 | a.mp4 | | 3s | swirl | | | | | |"

theorem rows_accounted_uneven :
    ∃ c, convert unevenList .template = .ok c ∧ c.clips = 1 ∧
      c.skipped = [⟨4, .emptyResource⟩] ∧ c.dropped = [⟨5, .transition, "swirl"⟩] ∧
      (c.withoutLine 4).dropped = [⟨4, .transition, "swirl"⟩] ∧
      Accounts unevenList.toList .template c := by
  have hresult : ((convert unevenList .template).toOption.map fun c =>
      (c.clips, c.skipped, c.dropped)) =
        some (1, [⟨4, .emptyResource⟩], [⟨5, .transition, "swirl"⟩]) := by decide +kernel
  obtain ⟨c, hc, hresult⟩ := Option.map_eq_some_iff.1 hresult
  rw [toOption_eq_some_iff] at hc
  simp only [Prod.mk.injEq] at hresult
  obtain ⟨hclips, hskipped, hdropped⟩ := hresult
  have hmoved : (c.withoutLine 4).dropped = [⟨4, .transition, "swirl"⟩] := by
    rw [Conversion.withoutLine, hdropped]
    rfl
  exact ⟨c, hc, hclips, hskipped, hdropped, hmoved, rows_accounted hc⟩

end VideoScript.ShotList
