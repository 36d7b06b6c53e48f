import Mathlib.Data.List.DropRight
import VideoScript.Text.Blank

/-!
# Trimmed texts

Trimming takes blanks off both ends and nothing else (`exists_trimChars`), and what is trimmed is
trimmed for good (`trimChars_trimChars`).
-/

set_option autoImplicit false

namespace VideoScript.Text

theorem trimEndChars_eq (s : List Char) : trimEndChars s = s.rdropWhile isBlank := rfl

theorem trimStartChars_trimChars (s : List Char) : trimStartChars (trimChars s) = trimChars s := by
  refine List.dropWhile_eq_self_iff.2 fun hl => ?_
  have hp : trimChars s <+: s.dropWhile isBlank := List.rdropWhile_prefix isBlank _
  have hlen : 0 < (s.dropWhile isBlank).length := Nat.lt_of_lt_of_le hl hp.length_le
  rw [hp.getElem hl]
  exact List.dropWhile_get_zero_not _ _ hlen

theorem trimEndChars_trimChars (s : List Char) : trimEndChars (trimChars s) = trimChars s := by
  rw [trimChars, trimEndChars_eq, trimEndChars_eq]
  exact List.rdropWhile_idempotent _ _

/-- What is trimmed is trimmed for good. -/
theorem trimChars_trimChars (s : List Char) : trimChars (trimChars s) = trimChars s :=
  trimChars_eq_self (trimStartChars_trimChars s) (trimEndChars_trimChars s)

/-- A text is its trimmed form between blanks. -/
theorem exists_trimChars (s : List Char) :
    ∃ before after, s = before ++ (trimChars s ++ after) ∧ before.all isBlank = true ∧
      after.all isBlank = true := by
  refine ⟨s.takeWhile isBlank, (trimStartChars s).rtakeWhile isBlank, ?_, ?_, ?_⟩
  · rw [trimChars, trimEndChars_eq, List.rdropWhile_append_rtakeWhile]
    exact List.takeWhile_append_dropWhile.symm
  · exact List.all_takeWhile
  · rw [List.rtakeWhile, List.all_reverse]
    exact List.all_takeWhile

end VideoScript.Text
