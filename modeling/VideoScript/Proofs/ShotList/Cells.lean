import VideoScript.Proofs.Text.Lines
import VideoScript.Proofs.Text.Trim
import VideoScript.ShotList.Row

/-!
# Joined cells

A row is written as its cells with a bar before, between and after them. Reading its cells gives
them back trimmed, exactly when the first cell is not empty (`cellsOf_joined_eq_iff`): the bars of
empty cells at the front run together with the bar before them and count as the frame of the table
(`cellsOf_joined`). Empty cells anywhere else, at the end too, are kept.
-/

set_option autoImplicit false

namespace VideoScript.ShotList

open Text

/-- Cells as a row: with a bar before, between and after them. -/
def joined (cells : List (List Char)) : List Char := '|' :: (['|'].intercalate cells ++ ['|'])

/-! ## The frame of a row -/

/-- Blanks around a text that begins and ends with none. -/
theorem trimChars_between {before after s : List Char} {c : Char} (hb : before.all isBlank = true)
    (ha : after.all isBlank = true) (hc : isBlank c = false)
    (hs : trimEndChars (c :: s) = c :: s) : trimChars (before ++ c :: s ++ after) = c :: s := by
  have hstart : trimStartChars (before ++ c :: s ++ after) = c :: s ++ after := by
    rw [List.append_assoc, trimStartChars, List.dropWhile_append_of_pos (List.all_eq_true.1 hb)]
    exact trimStartChars_cons_of_not_blank hc
  have hrev : ∀ d ∈ after.reverse, isBlank d = true := fun d hd =>
    List.all_eq_true.1 ha d (List.mem_reverse.1 hd)
  rw [trimChars, hstart, trimEndChars, List.reverse_append, List.dropWhile_append_of_pos hrev]
  exact hs

theorem trimChars_joined {before after : List Char} (hb : before.all isBlank = true)
    (ha : after.all isBlank = true) (cells : List (List Char)) :
    trimChars (before ++ joined cells ++ after) = joined cells := by
  have hbar : isBlank '|' = false := by decide
  apply trimChars_between hb ha hbar
  rw [← List.cons_append]
  exact trimEndChars_append_of_not_blank hbar

theorem intercalate_append {cells : List (List Char)} (h : cells ≠ []) :
    ['|'].intercalate cells ++ ['|'] = cells.flatMap (· ++ ['|']) := by
  induction cells with
  | nil => exact absurd rfl h
  | cons cell cells ih =>
    cases cells with
    | nil => rw [List.intercalate_singleton, List.flatMap_singleton]
    | cons next cells =>
      rw [List.intercalate_cons_cons, List.append_assoc, ih (List.cons_ne_nil _ _)]
      rfl

/-- Taking bars off the front takes the empty cells off the front. -/
theorem dropWhile_bars {cells : List (List Char)} (h : ∀ cell ∈ cells, '|' ∉ cell) :
    (cells.flatMap (· ++ ['|'])).dropWhile (· = '|') =
      (cells.dropWhile List.isEmpty).flatMap (· ++ ['|']) := by
  induction cells with
  | nil => rfl
  | cons cell cells ih =>
    obtain ⟨hcell, hcells⟩ := List.forall_mem_cons.1 h
    cases cell with
    | nil => simpa using ih hcells
    | cons c cell =>
      have hc : c ≠ '|' := fun he => hcell (he ▸ List.mem_cons_self)
      simp [hc]

theorem dropEnd?_append_bar (s : List Char) : dropEnd? ['|'] (s ++ ['|']) = some s := by
  have hsuffix : ['|'].isSuffixOf (s ++ ['|']) = true :=
    List.isSuffixOf_iff_suffix.2 (List.suffix_append _ _)
  rw [dropEnd?, if_pos hsuffix]
  simp

/-! ## Reading the cells -/

/-- The cells of a joined row are its cells from the first one that is not empty; where there is
none, one empty cell. -/
theorem cellsOf_joined {before after : List Char} {cells : List (List Char)}
    (hb : before.all isBlank = true) (ha : after.all isBlank = true)
    (hbar : ∀ cell ∈ cells, '|' ∉ cell) (hne : cells ≠ []) :
    cellsOf (before ++ joined cells ++ after) =
      if cells.all List.isEmpty then [[]] else (cells.dropWhile List.isEmpty).map trimChars := by
  have hinner : (joined cells).dropWhile (· = '|') =
      (cells.dropWhile List.isEmpty).flatMap (· ++ ['|']) := by
    rw [← dropWhile_bars hbar, joined, intercalate_append hne]
    rfl
  have hsub := (List.dropWhile_suffix (l := cells) List.isEmpty).subset
  rw [cellsOf, trimChars_joined hb ha, hinner]
  split
  · rename_i hall
    rw [List.dropWhile_eq_nil_iff.2 (List.all_eq_true.1 hall)]
    rfl
  · rename_i hall
    have hrest : cells.dropWhile List.isEmpty ≠ [] := fun he =>
      hall (List.all_eq_true.2 (List.dropWhile_eq_nil_iff.1 he))
    rw [← intercalate_append hrest, dropEnd?_append_bar, Option.getD_some,
      splitAt_intercalate (fun cell hc => hbar cell (hsub hc)) hrest]

/-- **Splitting undoes joining, exactly for rows whose first cell is not empty.** Take two cells or
more without bars, joined to a row with any blanks around it. Its cells are these cells, trimmed, if
and only if the first of them is not empty. -/
theorem cellsOf_joined_eq_iff {before after : List Char} {cells : List (List Char)}
    (hb : before.all isBlank = true) (ha : after.all isBlank = true)
    (hbar : ∀ cell ∈ cells, '|' ∉ cell) (hlen : 2 ≤ cells.length) :
    cellsOf (before ++ joined cells ++ after) = cells.map trimChars ↔ cells.head? ≠ some [] := by
  obtain _ | ⟨cell, rest⟩ := cells
  · simp at hlen
  rw [cellsOf_joined hb ha hbar (List.cons_ne_nil _ _), List.head?_cons]
  constructor
  · -- with an empty first cell the row has too few cells
    intro heq hempty
    obtain rfl : cell = [] := Option.some.inj hempty
    have hcount := congrArg List.length heq
    have hle := (List.dropWhile_suffix (l := rest) List.isEmpty).length_le
    simp only [List.length_cons, List.length_map] at hlen hcount
    split at hcount
    · rw [List.length_singleton] at hcount
      omega
    · rw [List.length_map, List.dropWhile_cons_of_pos rfl] at hcount
      omega
  · intro hfirst
    have hcell : cell ≠ [] := fun he => hfirst (congrArg some he)
    simp [hcell]

theorem cellsOf_joined_last_empty :
    let cells := ["1".toList, " a.mp4".toList, []]
    [' '].all isBlank = true ∧ ['\t'].all isBlank = true ∧ (∀ cell ∈ cells, '|' ∉ cell) ∧
      2 ≤ cells.length ∧ cells.head? ≠ some [] ∧
      cellsOf ([' '] ++ joined cells ++ ['\t']) = cells.map trimChars := by
  intro cells
  have hbefore : [' '].all isBlank = true := by decide
  have hafter : ['\t'].all isBlank = true := by decide
  have hbar : ∀ cell ∈ cells, '|' ∉ cell := by decide
  have hlen : 2 ≤ cells.length := by decide
  have hfirst : cells.head? ≠ some [] := by decide
  exact ⟨hbefore, hafter, hbar, hlen, hfirst,
    (cellsOf_joined_eq_iff hbefore hafter hbar hlen).2 hfirst⟩

/-- An empty cell at the front is lost, and the other cells move to the left. -/
theorem cellsOf_joined_first_empty :
    let cells := [[], "a.mp4".toList, [], "3s".toList]
    (∀ cell ∈ cells, '|' ∉ cell ∧ '\n' ∉ cell) ∧ 2 ≤ cells.length ∧
      cellsOf (joined cells) = ["a.mp4".toList, [], "3s".toList] ∧
      cellsOf (joined cells) ≠ cells.map trimChars := by
  decide

end VideoScript.ShotList
