import VideoScript.Placeholder
import VideoScript.Proofs.Text.Trim

/-!
# Where the pieces of a text come from

Characters that are no braces give no pieces (`pieces_append_of_plain`), so a text without braces
has none at all. A text that is one whole placeholder between blanks has that placeholder among its
pieces (`token_mem_pieces`), and the name of a placeholder is trimmed (`trimChars_soleToken`).
-/

set_option autoImplicit false

namespace VideoScript.Placeholder

open Text

/-! ## Characters without braces -/

theorem pieces_cons_of_plain {c : Char} (h : isPlain c = true) (rest : List Char) :
    pieces (c :: rest) = pieces rest := by
  have ho : c ≠ '{' := by
    rintro rfl
    exact absurd h (by decide)
  have hc : c ≠ '}' := by
    rintro rfl
    exact absurd h (by decide)
  rw [pieces] <;> simp_all

theorem pieces_append_of_plain {gap : List Char} (h : gap.all isPlain = true) (rest : List Char) :
    pieces (gap ++ rest) = pieces rest := by
  induction gap with
  | nil => rfl
  | cons c gap ih =>
    rw [List.all_cons, Bool.and_eq_true] at h
    rw [List.cons_append, pieces_cons_of_plain h.1, ih h.2]

theorem pieces_of_plain {s : List Char} (h : s.all isPlain = true) : pieces s = [] := by
  have := pieces_append_of_plain h []
  rwa [List.append_nil, pieces] at this

theorem isPlain_of_isBlank {c : Char} (h : isBlank c = true) : isPlain c = true := by
  have ho : c ≠ '{' := by
    rintro rfl
    exact absurd h (by decide)
  have hc : c ≠ '}' := by
    rintro rfl
    exact absurd h (by decide)
  simp [isPlain, isBrace, ho, hc]

/-! ## Whole placeholders -/

/-- A text that is one whole placeholder stands between its braces. -/
theorem soleToken?_eq_some {s t : List Char} (h : soleToken? s = some t) :
    ∃ inner, s = '{' :: '{' :: (inner ++ ['}', '}']) ∧ inner.all isInner = true ∧
      trimChars inner = t ∧ t ≠ [] := by
  unfold soleToken? at h
  split at h
  · split at h
    · rename_i rest _ inner hr
      dsimp only at h
      split at h
      · cases h
      · rename_i name hn
        split at h
        · rename_i hall
          cases h
          refine ⟨inner.reverse, ?_, hall, rfl, hn⟩
          have := congrArg List.reverse hr
          rw [List.reverse_reverse] at this
          simp [this]
        · cases h
    · cases h
  · cases h

theorem trimChars_soleToken {s t : List Char} (h : soleToken? s = some t) : trimChars t = t := by
  obtain ⟨inner, -, -, rfl, -⟩ := soleToken?_eq_some h
  exact trimChars_trimChars inner

theorem takeWhile_dropWhile_append {p : Char → Bool} {s : List Char} (h : s.all p = true) {c : Char}
    (hc : p c = false) (rest : List Char) :
    (s ++ c :: rest).takeWhile p = s ∧ (s ++ c :: rest).dropWhile p = c :: rest := by
  have hall : ∀ x ∈ s, p x = true := List.all_eq_true.1 h
  refine ⟨?_, ?_⟩
  · rw [List.takeWhile_append_of_pos hall, List.takeWhile_cons_of_neg (by simp [hc]),
      List.append_nil]
  · rw [List.dropWhile_append_of_pos hall, List.dropWhile_cons_of_neg (by simp [hc])]

/-- Two opening braces that two closing braces answer give one piece. -/
theorem pieces_closed {inner : List Char} (h : inner.all isInner = true) (more : List Char) :
    pieces ('{' :: '{' :: (inner ++ '}' :: '}' :: more)) = bodyPiece inner :: pieces more := by
  obtain ⟨htake, hdrop⟩ := takeWhile_dropWhile_append h (c := '}') (by decide) ('}' :: more)
  rw [pieces]
  split
  · simp_all
  · rename_i heq
    rw [hdrop] at heq
    cases heq
    rw [htake]
  · simp_all

/-- A text that is one whole placeholder between blanks has it among its pieces. -/
theorem token_mem_pieces {s t : List Char} (h : soleToken? (trimChars s) = some t) :
    .token t ∈ pieces s := by
  obtain ⟨before, after, hs, hb, -⟩ := exists_trimChars s
  obtain ⟨inner, hi, hall, ht, hne⟩ := soleToken?_eq_some h
  have hplain : before.all isPlain = true :=
    List.all_eq_true.2 fun c hc => isPlain_of_isBlank (List.all_eq_true.1 hb c hc)
  have hbody : bodyPiece inner = .token t := by
    unfold bodyPiece
    rw [ht]
    cases t with
    | nil => exact absurd rfl hne
    | cons c t => rfl
  have hp : pieces s = bodyPiece inner :: pieces after := by
    rw [hs, pieces_append_of_plain hplain, hi, ← pieces_closed hall]
    simp
  rw [hp, hbody]
  exact List.mem_cons_self

end VideoScript.Placeholder
