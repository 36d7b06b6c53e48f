import VideoScript.Proofs.ShotList.Cells
import VideoScript.Proofs.ShotList.Clips

/-!
# Lines and rows of a table

The rows of a shot list are the lines of its table, from the first head on and without the heads
(`rows_eq`). Each of them gives a clip or a reason, read off its text alone (`lineClip`), so the
clips and the skipped rows of a conversion are those of the lines, in their order (`clips_lines`,
`skipped_lines`).

A head is known by its first two or three characters. So a line of the table may be taken for
another head, and then it shows nowhere; no other line after a head is lost
(`table_line_shows_iff`).
-/

set_option autoImplicit false

namespace VideoScript.ShotList

open Json Text

variable {text : List Char} {plan : Plan} {mode : Mode} {dir : String} {s : List Char} {n : Nat}

/-! ## Lines of the table -/

/-- The line begins with a bar and is no rule of dashes. -/
def isTableLine (s : List Char) : Bool :=
  startsWith ['|'] (trimChars s) && !(cellsOf s).all isRuleCell

/-- The line is a row, where it stands after the head of the table. -/
def isDataLine (s : List Char) : Bool := isTableLine s && !isTableHead (trimChars s)

/-- The rows of a text as lines with their numbers, in order. -/
def dataLines (text : List Char) : List (Nat × List Char) :=
  ((numberedLines text).dropWhile fun l => !isTableHead (trimChars l.2)).filter fun l =>
    isDataLine l.2

/-- The shot of a line, or why it gives none. -/
def lineShot (s : List Char) : Except SkipReason Shot := readShot ((cellsOf s).map .ofList)

/-- The clip of a line, or why it gives none. -/
def lineClip (dir : String) (mode : Mode) (s : List Char) : Except SkipReason Json :=
  (lineShot s).map (·.clip mode dir)

/-- The shot of a line with its number, if it gives one. -/
def placedShot? (l : Nat × List Char) : Option PlacedShot :=
  (lineShot l.2).toOption.map fun shot => ⟨l.1, shot⟩

/-- The record of a line that gives no shot. -/
def unusedRow? (l : Nat × List Char) : Option UnusedRow :=
  match lineShot l.2 with
  | .ok _ => none
  | .error reason => some ⟨l.1, reason⟩

theorem cellsOf_trimChars (s : List Char) : cellsOf (trimChars s) = cellsOf s := by
  rw [cellsOf, trimChars_trimChars, cellsOf]

theorem row?_eq (n : Nat) (s : List Char) :
    row? n s = if isDataLine s then some ⟨n, (cellsOf s).map .ofList⟩ else none := by
  unfold row? isDataLine isTableLine
  dsimp only
  rw [cellsOf_trimChars]
  cases isTableHead (trimChars s) <;> cases startsWith ['|'] (trimChars s) <;>
    cases (cellsOf s).all isRuleCell <;> rfl

theorem rows_eq (text : List Char) :
    rows text = (dataLines text).map fun l => ⟨l.1, (cellsOf l.2).map .ofList⟩ := by
  rw [dataLines, ← List.filterMap_eq_map, List.filterMap_filter, rows]
  exact List.filterMap_congr fun l _ => row?_eq l.1 l.2

theorem mem_dataLines {l : Nat × List Char} (h : l ∈ dataLines text) :
    l ∈ numberedLines text ∧ isDataLine l.2 = true :=
  ⟨(List.dropWhile_suffix _).subset (List.mem_of_mem_filter h), (List.mem_filter.1 h).2⟩

/-! ## Lines by their numbers -/

theorem mem_numberedLines_iff :
    (n, s) ∈ numberedLines text ↔ ∃ i, n = i + 1 ∧ (lines text)[i]? = some s := by
  constructor
  · intro h
    obtain ⟨⟨line, i⟩, hl, heq⟩ := List.mem_map.1 h
    obtain ⟨rfl, rfl⟩ := Prod.mk.inj heq
    exact ⟨i, rfl, List.mk_mem_zipIdx_iff_getElem?.1 hl⟩
  · rintro ⟨i, rfl, hi⟩
    exact List.mem_map.2 ⟨(s, i), List.mk_mem_zipIdx_iff_getElem?.2 hi, rfl⟩

/-- A number stands for one line. -/
theorem eq_of_mem_numberedLines {s' : List Char} (h : (n, s) ∈ numberedLines text)
    (h' : (n, s') ∈ numberedLines text) : s = s' := by
  obtain ⟨i, rfl, hi⟩ := mem_numberedLines_iff.1 h
  obtain ⟨j, hj, hs'⟩ := mem_numberedLines_iff.1 h'
  obtain rfl : i = j := by omega
  exact Option.some.inj (hi.symm.trans hs')

theorem nodup_numberedLines (text : List Char) : (numberedLines text).Nodup := by
  have hnumbers : ((numberedLines text).map (·.1)).Nodup := by
    have h : (numberedLines text).map (·.1) = (List.range (lines text).length).map (· + 1) := by
      rw [numberedLines, List.map_map, List.range_eq_range', ← List.zipIdx_map_snd 0 (lines text),
        List.map_map]
      rfl
    rw [h]
    exact List.nodup_range.map fun a b hab => by omega
  exact List.Nodup.of_map _ hnumbers

/-- A line of the table is a row exactly when it comes after a head and is none. -/
theorem mem_dataLines_iff {before after : List (Nat × List Char)}
    (h : numberedLines text = before ++ (n, s) :: after) : (n, s) ∈ dataLines text ↔
      (∃ l ∈ before, isTableHead (trimChars l.2) = true) ∧ isDataLine s = true := by
  have hnodup := nodup_numberedLines text
  rw [h, List.nodup_append] at hnodup
  have hafter : (n, s) ∉ after := (List.nodup_cons.1 hnodup.2.1).1
  rw [dataLines, List.mem_filter, h, List.dropWhile_append]
  by_cases hhead : ∃ l ∈ before, isTableHead (trimChars l.2) = true
  · have hne : (before.dropWhile fun l => !isTableHead (trimChars l.2)).isEmpty = false := by
      obtain ⟨l, hl, hhead⟩ := hhead
      rw [Bool.eq_false_iff]
      intro hempty
      have hall := List.dropWhile_eq_nil_iff.1 (List.isEmpty_iff.1 hempty) l hl
      rw [hhead] at hall
      cases hall
    simp [hne, hhead]
  · have hempty : (before.dropWhile fun l => !isTableHead (trimChars l.2)).isEmpty = true := by
      rw [List.isEmpty_iff, List.dropWhile_eq_nil_iff]
      intro l hl
      simp only [Bool.not_eq_true']
      exact Bool.eq_false_iff.2 fun ht => hhead ⟨l, hl, ht⟩
    rw [if_pos hempty]
    refine iff_of_false ?_ fun h => hhead h.1
    rintro ⟨hmem, hdata⟩
    have hs : isTableHead (trimChars s) = false := by
      simpa using (Bool.and_eq_true_iff.1 hdata).2
    rw [List.dropWhile_cons_of_pos (by simp [hs])] at hmem
    exact hafter ((List.dropWhile_suffix _).subset hmem)

/-! ## What lines give -/

theorem readRows_lines (text : List Char) : readRows (rows text) =
    ((dataLines text).filterMap placedShot?, (dataLines text).filterMap unusedRow?) := by
  rw [readRows, rows_eq, List.filterMap_map, List.filterMap_map]
  congr 1
  refine List.filterMap_congr fun l _ => ?_
  rw [Function.comp_apply, placedShot?, lineShot]
  cases readShot ((cellsOf l.2).map .ofList) <;> rfl

theorem shots_lines (h : readPlan text = .ok plan) :
    plan.shots = (dataLines text).filterMap placedShot? := by
  obtain ⟨-, -, hrows, -⟩ := readPlan_eq_ok h
  rw [readRows_lines] at hrows
  exact (Prod.mk.inj hrows).1.symm

theorem skipped_lines (h : readPlan text = .ok plan) :
    plan.skipped = (dataLines text).filterMap unusedRow? := by
  obtain ⟨-, -, hrows, -⟩ := readPlan_eq_ok h
  rw [readRows_lines] at hrows
  exact (Prod.mk.inj hrows).2.symm

theorem clips_lines (h : readPlan text = .ok plan) : clipsOf (plan.document mode) =
    (dataLines text).filterMap fun l => (lineClip plan.resourcesDir mode l.2).toOption := by
  rw [clipsOf_document, Plan.clips, shots_lines h, List.map_filterMap]
  refine List.filterMap_congr fun l _ => ?_
  rw [lineClip, placedShot?]
  cases lineShot l.2 <;> rfl

/-- A line is skipped exactly when it gives no clip. -/
theorem unusedRow?_eq_some_iff {l : Nat × List Char} {u : UnusedRow} (dir : String) (mode : Mode) :
    unusedRow? l = some u ↔ u.line = l.1 ∧ lineClip dir mode l.2 = .error u.reason := by
  obtain ⟨line, reason⟩ := u
  rw [unusedRow?, lineClip]
  cases lineShot l.2 with
  | ok shot => simp [Except.map]
  | error e => simp [Except.map, eq_comm]

/-! ## Heads -/

/-- A head, without the bars at its start, has a hash sign after one space or none. -/
theorem dropWhile_head (h : isTableHead (trimChars s) = true) :
    ∃ before rest, (before = [] ∨ before = [' ']) ∧
      (trimChars s).dropWhile (· = '|') = before ++ '#' :: rest := by
  unfold isTableHead startsWith at h
  rw [Bool.or_eq_true, List.isPrefixOf_iff_prefix, List.isPrefixOf_iff_prefix] at h
  rcases h with ⟨rest, h⟩ | ⟨rest, h⟩
  · exact ⟨[' '], rest, .inr rfl, by rw [← h]; rfl⟩
  · exact ⟨[], rest, .inl rfl, by rw [← h]; rfl⟩

theorem dropEnd?_of_ne {c : Char} (hc : c ≠ '|') (s : List Char) :
    dropEnd? ['|'] (s ++ [c]) = none := by
  refine if_neg fun hsuffix => hc ?_
  obtain ⟨t, ht⟩ := List.isSuffixOf_iff_suffix.1 hsuffix
  have hlast := (List.append_inj' ht rfl).2
  exact (List.singleton_inj.1 hlast).symm

/-- Taking a bar off the end leaves the hash sign and what stands before it. -/
theorem dropEnd?_hash (before rest : List Char) :
    ∃ rest', (dropEnd? ['|'] (before ++ '#' :: rest)).getD (before ++ '#' :: rest) =
      before ++ '#' :: rest' := by
  rcases List.eq_nil_or_concat' rest with rfl | ⟨rest', c, rfl⟩
  · exact ⟨[], by rw [dropEnd?_of_ne (by decide)]; rfl⟩
  · have hlast : before ++ '#' :: (rest' ++ [c]) = before ++ '#' :: rest' ++ [c] := by simp
    by_cases hc : c = '|'
    · subst hc
      exact ⟨rest', by rw [hlast, dropEnd?_append_bar]; rfl⟩
    · exact ⟨rest' ++ [c], by rw [hlast, dropEnd?_of_ne hc, Option.getD_none]⟩

theorem splitAt_hash (s : List Char) :
    ∃ piece pieces, splitAt '|' ('#' :: s) = ('#' :: piece) :: pieces := by
  have hne : '#' ≠ '|' := by decide
  rw [splitAt, if_neg hne]
  split
  · exact ⟨[], [], rfl⟩
  · rename_i piece pieces _
    exact ⟨piece, pieces, rfl⟩

theorem trimChars_hash (s : List Char) : ∃ rest, trimChars ('#' :: s) = '#' :: rest := by
  have hhash : isBlank '#' = false := by decide
  have hprefix : trimChars ('#' :: s) <+: '#' :: s := by
    rw [trimChars, trimStartChars_cons_of_not_blank hhash, trimEndChars_eq]
    exact List.rdropWhile_prefix _ _
  have hne : trimChars ('#' :: s) ≠ [] := by
    rw [trimChars, trimStartChars_cons_of_not_blank hhash, trimEndChars_eq, Ne,
      List.rdropWhile_eq_nil_iff]
    intro hall
    exact absurd (hall '#' List.mem_cons_self) (by rw [hhash]; exact Bool.false_ne_true)
  obtain ⟨c, rest, hc⟩ := List.exists_cons_of_ne_nil hne
  rw [hc, List.cons_prefix_cons] at hprefix
  exact ⟨rest, by rw [hc, hprefix.1]⟩

/-- The first cell of a head begins with a hash sign. -/
theorem head_first_cell (h : isTableHead (trimChars s) = true) :
    ∃ cell cells, cellsOf s = ('#' :: cell) :: cells := by
  obtain ⟨before, rest, hbefore, hinner⟩ := dropWhile_head h
  obtain ⟨rest', hrest'⟩ := dropEnd?_hash before rest
  obtain ⟨piece, pieces, hpieces⟩ := splitAt_hash rest'
  obtain ⟨cell, hcell⟩ := trimChars_hash piece
  rw [cellsOf, hinner, hrest']
  rcases hbefore with rfl | rfl
  · rw [List.nil_append, hpieces, List.map_cons, hcell]
    exact ⟨cell, _, rfl⟩
  · have hspace : splitAt '|' (' ' :: '#' :: rest') = (' ' :: '#' :: piece) :: pieces := by
      have hne : ' ' ≠ '|' := by decide
      rw [splitAt, if_neg hne, hpieces]
    have htrim : trimChars (' ' :: '#' :: piece) = trimChars ('#' :: piece) := rfl
    rw [List.singleton_append, hspace, List.map_cons, htrim, hcell]
    exact ⟨cell, _, rfl⟩

/-! ## What shows of a line -/

/-- A conversion shows a line: the line is one of those that give the clips, or it is skipped. -/
def Conversion.Shows (c : Conversion) (sources : List (Nat × List Char)) (n : Nat)
    (s : List Char) : Prop :=
  (n, s) ∈ sources ∨ ∃ u ∈ c.skipped, u.line = n

/-- The rows of a text that give clips. -/
def clipLines (text : List Char) (dir : String) (mode : Mode) : List (Nat × List Char) :=
  (dataLines text).filter fun l => (lineClip dir mode l.2).isOk

theorem forall₂_clipLines (h : readPlan text = .ok plan) :
    List.Forall₂ (fun l clip => lineClip plan.resourcesDir mode l.2 = .ok clip)
      (clipLines text plan.resourcesDir mode) (clipsOf (plan.document mode)) := by
  rw [clips_lines h]
  exact forall₂_filter_isOk _

/-- The lines that show are the rows. -/
theorem shows_iff (h : readPlan text = .ok plan) (hl : (n, s) ∈ numberedLines text) :
    (plan.convert mode).Shows (clipLines text plan.resourcesDir mode) n s ↔
      (n, s) ∈ dataLines text := by
  have hskipped : (plan.convert mode).skipped = (dataLines text).filterMap unusedRow? :=
    skipped_lines h
  unfold Conversion.Shows
  rw [hskipped]
  constructor
  · rintro (hmem | ⟨u, hu, rfl⟩)
    · exact List.mem_of_mem_filter hmem
    · obtain ⟨⟨m, s'⟩, hmem, hu⟩ := List.mem_filterMap.1 hu
      obtain ⟨hline, -⟩ := (unusedRow?_eq_some_iff plan.resourcesDir mode).1 hu
      rw [hline] at hl ⊢
      rwa [eq_of_mem_numberedLines hl (mem_dataLines hmem).1]
  · intro hmem
    cases hclip : lineClip plan.resourcesDir mode s with
    | ok clip =>
      refine .inl (List.mem_filter.2 ⟨hmem, ?_⟩)
      rw [hclip]
      rfl
    | error reason =>
      exact .inr ⟨⟨n, reason⟩, List.mem_filterMap.2 ⟨(n, s), hmem,
        (unusedRow?_eq_some_iff plan.resourcesDir mode).2 ⟨rfl, hclip⟩⟩, rfl⟩

/-- **What vanishes from a table.** Take a text that is converted. Its clips come from some of its
lines, in order. A line of the table shows, as one of these lines or as a skipped one, if and only
if it comes after a head and is not taken for a head itself. So it shows after a head where its
first cell does not begin with a hash sign. -/
theorem table_line_shows_iff {text : String} {mode : Mode} {c : Conversion}
    (h : convert text mode = .ok c) :
    ∃ sources, sources.Sublist (numberedLines text.toList) ∧
      List.Forall₂ (fun l clip => lineClip c.resourcesDir mode l.2 = .ok clip) sources
        (clipsOf c.document) ∧
      ∀ before n s after, numberedLines text.toList = before ++ (n, s) :: after →
        isTableLine s = true →
          (c.Shows sources n s ↔
            (∃ l ∈ before, isTableHead (trimChars l.2) = true) ∧
              isTableHead (trimChars s) = false) ∧
          ((∃ l ∈ before, isTableHead (trimChars l.2) = true) →
            (∀ cell cells, cellsOf s ≠ ('#' :: cell) :: cells) → c.Shows sources n s) := by
  obtain ⟨plan, hplan, rfl⟩ := readPlan_of_convert h
  have hsublist : (clipLines text.toList plan.resourcesDir mode).Sublist
      (numberedLines text.toList) :=
    (List.filter_sublist.trans List.filter_sublist).trans (List.dropWhile_suffix _).sublist
  refine ⟨clipLines text.toList plan.resourcesDir mode, hsublist, forall₂_clipLines hplan,
    fun before n s after hlines htable => ?_⟩
  have hmem : (n, s) ∈ numberedLines text.toList := by simp [hlines]
  have hshows : (plan.convert mode).Shows (clipLines text.toList plan.resourcesDir mode) n s ↔
      (∃ l ∈ before, isTableHead (trimChars l.2) = true) ∧ isTableHead (trimChars s) = false := by
    rw [shows_iff hplan hmem, mem_dataLines_iff hlines, isDataLine, htable, Bool.true_and,
      Bool.not_eq_true']
  refine ⟨hshows, fun hbefore hcells => hshows.2 ⟨hbefore, ?_⟩⟩
  rw [Bool.eq_false_iff]
  intro hhead
  obtain ⟨cell, cells, hc⟩ := head_first_cell hhead
  exact hcells cell cells hc

theorem table_line_shows_iff_endless :
    ∃ c sources before s after, convert endlessList .template = .ok c ∧
      List.Forall₂ (fun l clip => lineClip c.resourcesDir .template l.2 = .ok clip) sources
        (clipsOf c.document) ∧
      numberedLines endlessList.toList = before ++ (5, s) :: after ∧ isTableLine s = true ∧
      c.Shows sources 5 s := by
  have hok : (convert endlessList .template).isOk = true := by decide +kernel
  obtain ⟨c, hc⟩ := exists_of_isOk hok
  obtain ⟨sources, -, hclips, hshows⟩ := table_line_shows_iff hc
  let before := (numberedLines endlessList.toList).take 4
  let s := "| 2 | a.mp4 | 0:inf | inf | | | | | nan | |".toList
  have hlines : numberedLines endlessList.toList = before ++ (5, s) :: [] := by decide +kernel
  have htable : isTableLine s = true := by decide +kernel
  have hhead : (∃ l ∈ before, isTableHead (trimChars l.2) = true) ∧
      isTableHead (trimChars s) = false := by decide +kernel
  exact ⟨c, sources, before, s, [], hc, hclips, hlines, htable,
    (hshows before 5 s [] hlines htable).1.2 hhead⟩

/-- A shot list whose only row has a hash sign before its number. -/
def hashList : String :=
  "## name: Demo\n## resources_dir: media\n| # | Resource |\n| #1 | a.mp4 | | 3s | | | | | | |"

/-- A row that begins like a head is lost. -/
theorem hash_row_vanishes :
    ∃ c before s, convert hashList .legacy = .ok c ∧
      numberedLines hashList.toList = before ++ [(4, s)] ∧
      (∃ l ∈ before, isTableLine l.2 = true ∧ (cellsOf l.2).head? = some ['#']) ∧
      isTableLine s = true ∧ (cellsOf s).head? = some "#1".toList ∧
      clipsOf c.document = [] ∧ c.skipped = [] := by
  have hresult : ((convert hashList .legacy).toOption.map fun c =>
      ((clipsOf c.document).length, c.skipped)) = some (0, []) := by decide +kernel
  obtain ⟨c, hc, hresult⟩ := Option.map_eq_some_iff.1 hresult
  rw [toOption_eq_some_iff] at hc
  obtain ⟨hclips, hskipped⟩ := Prod.mk.inj hresult
  let s := "| #1 | a.mp4 | | 3s | | | | | | |".toList
  have hlines : numberedLines hashList.toList =
      (numberedLines hashList.toList).take 3 ++ [(4, s)] := by decide +kernel
  have hhead : ∃ l ∈ (numberedLines hashList.toList).take 3,
      isTableLine l.2 = true ∧ (cellsOf l.2).head? = some ['#'] := by decide +kernel
  have htable : isTableLine s = true := by decide +kernel
  have hcell : (cellsOf s).head? = some "#1".toList := by decide +kernel
  exact ⟨c, _, s, hc, hlines, hhead, htable, hcell, List.length_eq_zero_iff.1 hclips, hskipped⟩

end VideoScript.ShotList
