import Mathlib.Data.List.Basic
import VideoScript.Text.Lines

/-!
# Pieces and lines of a text

Splitting at a character takes apart what was joined with it, where no piece has it
(`splitAt_intercalate`). Taking a line with its end out of a text takes it out of the list of lines
and leaves the others as they are (`lines_dropLine`).
-/

set_option autoImplicit false

namespace VideoScript.Text

/-! ## Pieces -/

theorem splitAt_of_not_mem {c : Char} {s : List Char} (h : c ∉ s) : splitAt c s = [s] := by
  induction s with
  | nil => rfl
  | cons d s ih =>
    rw [List.mem_cons, not_or] at h
    rw [splitAt, if_neg (Ne.symm h.1), ih h.2]

theorem splitAt_append {c : Char} {s : List Char} (h : c ∉ s) (rest : List Char) :
    splitAt c (s ++ c :: rest) = s :: splitAt c rest := by
  induction s with
  | nil => simp [splitAt]
  | cons d s ih =>
    rw [List.mem_cons, not_or] at h
    rw [List.cons_append, splitAt, if_neg (Ne.symm h.1), ih h.2]

/-- A separator splits a text into the pieces before it and those after it. -/
theorem splitAt_append_cons (c : Char) (s rest : List Char) :
    splitAt c (s ++ c :: rest) = splitAt c s ++ splitAt c rest := by
  induction s with
  | nil => simp [splitAt]
  | cons d s ih =>
    rw [List.cons_append, splitAt, splitAt, ih]
    by_cases h : d = c
    · rw [if_pos h, if_pos h, List.cons_append]
    · rw [if_neg h, if_neg h]
      cases hs : splitAt c s with
      | nil => exact absurd hs (splitAt_ne_nil c s)
      | cons piece pieces => rfl

/-- Splitting takes apart what was joined. -/
theorem splitAt_intercalate {c : Char} {pieces : List (List Char)} (h : ∀ p ∈ pieces, c ∉ p)
    (hne : pieces ≠ []) : splitAt c ([c].intercalate pieces) = pieces := by
  induction pieces with
  | nil => exact absurd rfl hne
  | cons p pieces ih =>
    obtain ⟨hp, hrest⟩ := List.forall_mem_cons.1 h
    cases pieces with
    | nil => rw [List.intercalate_singleton, splitAt_of_not_mem hp]
    | cons q pieces =>
      rw [List.intercalate_cons_cons, List.append_assoc, List.singleton_append, splitAt_append hp,
        ih hrest (List.cons_ne_nil _ _)]

/-! ## Lines -/

theorem lines_of_not_mem {line : List Char} (h : '\n' ∉ line) :
    lines line = if line.isEmpty then [] else [line] := by
  rw [lines, splitAt_of_not_mem h]
  rfl

theorem lines_append {line : List Char} (h : '\n' ∉ line) (rest : List Char) :
    lines (line ++ '\n' :: rest) = dropReturn line :: lines rest := by
  have hne := splitAt_ne_nil '\n' rest
  rw [lines, lines, splitAt_append h, List.dropLast_cons_of_ne_nil hne, List.getLast?_cons,
    List.getLast?_eq_some_getLast hne]
  rfl

/-- A text without one of its lines, counted from zero, and without the end of that line. -/
def dropLine : Nat → List Char → List Char
  | _, [] => []
  | 0, c :: rest => if c = '\n' then rest else dropLine 0 rest
  | n + 1, c :: rest => c :: (if c = '\n' then dropLine n rest else dropLine (n + 1) rest)

theorem dropLine_zero_append {line : List Char} (h : '\n' ∉ line) (rest : List Char) :
    dropLine 0 (line ++ '\n' :: rest) = rest := by
  induction line with
  | nil => rfl
  | cons c line ih =>
    rw [List.mem_cons, not_or] at h
    rw [List.cons_append, dropLine, if_neg (Ne.symm h.1), ih h.2]

theorem dropLine_zero_of_not_mem {line : List Char} (h : '\n' ∉ line) : dropLine 0 line = [] := by
  induction line with
  | nil => rfl
  | cons c line ih =>
    rw [List.mem_cons, not_or] at h
    rw [dropLine, if_neg (Ne.symm h.1), ih h.2]

theorem dropLine_succ_append {line : List Char} (h : '\n' ∉ line) (n : Nat) (rest : List Char) :
    dropLine (n + 1) (line ++ '\n' :: rest) = line ++ '\n' :: dropLine n rest := by
  induction line with
  | nil => rfl
  | cons c line ih =>
    rw [List.mem_cons, not_or] at h
    rw [List.cons_append, dropLine, if_neg (Ne.symm h.1), ih h.2]
    rfl

theorem dropLine_succ_of_not_mem {line : List Char} (h : '\n' ∉ line) (n : Nat) :
    dropLine (n + 1) line = line := by
  induction line with
  | nil => rfl
  | cons c line ih =>
    rw [List.mem_cons, not_or] at h
    rw [dropLine, if_neg (Ne.symm h.1), ih h.2]

/-- Without a line, a text has the other lines, each as it was. -/
theorem lines_dropLine (n : Nat) (s : List Char) : lines (dropLine n s) = (lines s).eraseIdx n := by
  induction n generalizing s with
  | zero =>
    by_cases h : '\n' ∈ s
    · obtain ⟨line, rest, rfl, hline⟩ := List.eq_append_cons_of_mem h
      rw [dropLine_zero_append hline, lines_append hline, List.eraseIdx_cons_zero]
    · rw [dropLine_zero_of_not_mem h, lines_of_not_mem h]
      cases s <;> rfl
  | succ n ih =>
    by_cases h : '\n' ∈ s
    · obtain ⟨line, rest, rfl, hline⟩ := List.eq_append_cons_of_mem h
      rw [dropLine_succ_append hline, lines_append hline, lines_append hline, ih,
        List.eraseIdx_cons_succ]
    · rw [dropLine_succ_of_not_mem h, lines_of_not_mem h]
      cases s <;> rfl

end VideoScript.Text
