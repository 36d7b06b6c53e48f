import Mathlib.Data.List.TakeWhile
import VideoScript.Proofs.Placeholder.Pieces

/-!
# A text splits into gaps and marks

Every brace of a text belongs to exactly one piece. `Marks piece mark rest` says which characters
`mark` a piece stands for when `rest` follows them, and `Splits s ps` that `s` is made of brace-free
gaps and the marks of `ps`, in turn. The marks leave no choice: `ps` are the pieces of `s` and
nothing else (`pieces_eq_iff`).

* `pieces_append_mark`: what one mark adds to the pieces of what follows it.
* `splits_pieces`: the pieces of a text split it.
* `pieces_eq_nil_iff`, `soleToken?_eq_some_iff`: texts without pieces, and texts that are one
  placeholder.
-/

set_option autoImplicit false

namespace VideoScript.Placeholder

open Text

/-- No opening and no closing brace in a text. -/
def BraceFree (s : List Char) : Prop := '{' ∉ s ∧ '}' ∉ s

/-- Which characters make up a problem when `rest` follows them. -/
inductive Misplaced : Problem → List Char → List Char → Prop where
  | empty {body rest : List Char} : '}' ∉ body → trimChars body = [] →
      Misplaced .empty ('{' :: '{' :: (body ++ ['}', '}'])) rest
  | cut {body rest : List Char} : '}' ∉ body → rest.head? ≠ some '}' →
      Misplaced .unterminated ('{' :: '{' :: (body ++ ['}'])) rest
  | unclosed {body : List Char} : '}' ∉ body → Misplaced .unterminated ('{' :: '{' :: body) []
  | double {body rest : List Char} : BraceFree body →
      Misplaced .singleBraces ('{' :: (body ++ ['}', '}'])) rest
  | single {body rest : List Char} : BraceFree body → rest.head? ≠ some '}' →
      Misplaced .singleBraces ('{' :: (body ++ ['}'])) rest
  | lone {rest : List Char} : rest.head? ≠ some '{' → rest.find? isBrace ≠ some '}' →
      Misplaced .unmatchedOpen ['{'] rest
  | closers {rest : List Char} : Misplaced .unmatchedClose ['}', '}'] rest
  | closer {rest : List Char} : rest.head? ≠ some '}' → Misplaced .unmatchedClose ['}'] rest

/-- Which characters a piece stands for when `rest` follows them. -/
inductive Marks : Piece → List Char → List Char → Prop where
  | token {body rest : List Char} : '}' ∉ body → trimChars body ≠ [] →
      Marks (.token (trimChars body)) ('{' :: '{' :: (body ++ ['}', '}'])) rest
  | problem {kind : Problem} {mark rest : List Char} : Misplaced kind mark rest →
      Marks (.problem kind mark) mark rest

/-- A text is made of brace-free gaps and of the marks of pieces, in turn. -/
inductive Splits : List Char → List Piece → Prop where
  | last {gap : List Char} : BraceFree gap → Splits gap []
  | piece {gap mark rest : List Char} {piece : Piece} {pieces : List Piece} : BraceFree gap →
      Marks piece mark rest → Splits rest pieces → Splits (gap ++ (mark ++ rest)) (piece :: pieces)

/-! ## Classes of characters -/

theorem all_isInner_iff {s : List Char} : s.all isInner = true ↔ '}' ∉ s := by
  simp only [List.all_eq_true, isInner, decide_eq_true_iff]
  exact ⟨fun h hm => h _ hm rfl, fun h c hc he => h (he ▸ hc)⟩

theorem isPlain_iff {c : Char} : isPlain c = true ↔ c ≠ '{' ∧ c ≠ '}' := by
  simp [isPlain, isBrace]

theorem all_isPlain_iff {s : List Char} : s.all isPlain = true ↔ BraceFree s := by
  simp only [List.all_eq_true, isPlain_iff]
  exact ⟨fun h => ⟨fun hm => (h _ hm).1 rfl, fun hm => (h _ hm).2 rfl⟩,
    fun h c hc => ⟨fun he => h.1 (he ▸ hc), fun he => h.2 (he ▸ hc)⟩⟩

theorem BraceFree.cons {c : Char} {s : List Char} (hc : c ≠ '{' ∧ c ≠ '}') (h : BraceFree s) :
    BraceFree (c :: s) :=
  all_isPlain_iff.1 (by simp [isPlain_iff.2 hc, all_isPlain_iff.2 h])

theorem braceFree_of_blank {s : List Char} (h : s.all isBlank = true) : BraceFree s :=
  all_isPlain_iff.1
    (List.all_eq_true.2 fun c hc => isPlain_of_isBlank (List.all_eq_true.1 h c hc))

/-- A text up to the first character outside a class. -/
theorem eq_append_of_dropWhile {p : Char → Bool} {s rest : List Char} {c : Char}
    (h : s.dropWhile p = c :: rest) :
    s = s.takeWhile p ++ c :: rest ∧ (s.takeWhile p).all p = true ∧ p c = false := by
  refine ⟨by rw [← h, List.takeWhile_append_dropWhile], List.all_takeWhile, ?_⟩
  have hl : 0 < (s.dropWhile p).length := by simp [h]
  have hp := List.dropWhile_get_zero_not p s hl
  simpa [h] using hp

/-- A text has one first closing brace. -/
theorem append_close_inj {s rest s' rest' : List Char} (hs : '}' ∉ s) (hs' : '}' ∉ s')
    (h : s ++ '}' :: rest = s' ++ '}' :: rest') : s = s' ∧ rest = rest' := by
  obtain ⟨ht, hd⟩ :=
    takeWhile_dropWhile_append (all_isInner_iff.2 hs) (c := '}') (by decide) rest
  obtain ⟨ht', hd'⟩ :=
    takeWhile_dropWhile_append (all_isInner_iff.2 hs') (c := '}') (by decide) rest'
  rw [h, ht'] at ht
  rw [h, hd'] at hd
  exact ⟨ht.symm, (List.cons.inj hd.symm).2⟩

theorem all_of_dropWhile {p : Char → Bool} {s : List Char} (h : s.dropWhile p = []) :
    s.all p = true :=
  List.all_eq_true.2 (List.dropWhile_eq_nil_iff.1 h)

theorem find?_isBrace (s : List Char) : s.find? isBrace = (s.dropWhile isPlain).head? :=
  s.find?_eq_head?_dropWhile_not isBrace

/-! ## The pieces of a split text -/

theorem bodyPiece_of_blank {body : List Char} (h : trimChars body = []) :
    bodyPiece body = .problem .empty ('{' :: '{' :: (body ++ ['}', '}'])) := by
  rw [bodyPiece, h]

theorem bodyPiece_of_not_blank {body : List Char} (h : trimChars body ≠ []) :
    bodyPiece body = .token (trimChars body) := by
  unfold bodyPiece
  split
  · rename_i he
    exact absurd he h
  · rfl

theorem marks_bodyPiece {body : List Char} (h : '}' ∉ body) (rest : List Char) :
    Marks (bodyPiece body) ('{' :: '{' :: (body ++ ['}', '}'])) rest := by
  by_cases ht : trimChars body = []
  · rw [bodyPiece_of_blank ht]
    exact .problem (.empty h ht)
  · rw [bodyPiece_of_not_blank ht]
    exact .token h ht

/-- A character that is no brace joins the first gap. -/
theorem Splits.cons {c : Char} {s : List Char} {ps : List Piece} (hc : c ≠ '{' ∧ c ≠ '}')
    (h : Splits s ps) : Splits (c :: s) ps := by
  cases h with
  | last hg => exact .last (hg.cons hc)
  | piece hg hm hr => exact .piece (hg.cons hc) hm hr

theorem braceFree_nil : BraceFree [] := by simp [BraceFree]

/-- A mark at the start of a text. -/
theorem Splits.mark {mark rest : List Char} {piece : Piece} {ps : List Piece}
    (hr : Splits rest ps) (hm : Marks piece mark rest) : Splits (mark ++ rest) (piece :: ps) :=
  .piece braceFree_nil hm hr

theorem head?_ne_of_forall {c : Char} {s : List Char} (h : ∀ rest, s = c :: rest → False) :
    s.head? ≠ some c := by
  intro he
  obtain ⟨rest, hs⟩ := List.head?_eq_some_iff.1 he
  exact h rest hs

/-- The pieces of a text split it. -/
theorem splits_pieces (s : List Char) : Splits s (pieces s) := by
  -- each step of the scan takes one mark off the front, or one character of a gap
  fun_induction pieces s with
  | case1 => exact .last braceFree_nil
  | case2 rest hd =>
    have h := (Splits.last braceFree_nil).mark
      (.problem (.unclosed (all_isInner_iff.1 (all_of_dropWhile hd))))
    rwa [List.append_nil] at h
  | case3 rest body close more hd ih =>
    obtain ⟨hs, hall, hc⟩ := eq_append_of_dropWhile hd
    have hclose : close = '}' := by simpa [isInner] using hc
    have h := ih.mark (marks_bodyPiece (all_isInner_iff.1 hall) more)
    rw [hs, hclose]
    simpa using h
  | case4 rest body close more hx hd ih =>
    obtain ⟨hs, hall, hc⟩ := eq_append_of_dropWhile hd
    have hclose : close = '}' := by simpa [isInner] using hc
    subst hclose
    have h := ih.mark (.problem (.cut (all_isInner_iff.1 hall) (head?_ne_of_forall hx)))
    rw [hs]
    simpa using h
  | case5 rest hx body more hd ih =>
    obtain ⟨hs, hall, -⟩ := eq_append_of_dropWhile hd
    have h := ih.mark (.problem (.double (all_isPlain_iff.1 hall)))
    rw [hs]
    simpa using h
  | case6 rest hx body more hmore hd ih =>
    obtain ⟨hs, hall, -⟩ := eq_append_of_dropWhile hd
    have h := ih.mark (.problem (.single (all_isPlain_iff.1 hall) (head?_ne_of_forall hmore)))
    rw [hs]
    simpa using h
  | case7 rest hx _ hsingle ih =>
    refine ih.mark (.problem (.lone (head?_ne_of_forall hx) fun hf => ?_))
    rw [find?_isBrace] at hf
    obtain ⟨more, hd⟩ := List.head?_eq_some_iff.1 hf
    exact hsingle more hd
  | case8 rest ih => exact ih.mark (.problem .closers)
  | case9 rest hx ih => exact ih.mark (.problem (.closer (head?_ne_of_forall hx)))
  | case10 c rest _ hopen _ hclose ih => exact ih.cons ⟨hopen, hclose⟩

/-! ## A split text has no other pieces -/

theorem pieces_cut {body rest : List Char} (hb : '}' ∉ body) (hr : rest.head? ≠ some '}') :
    pieces ('{' :: '{' :: (body ++ '}' :: rest)) =
      .problem .unterminated ('{' :: '{' :: (body ++ ['}'])) :: pieces rest := by
  obtain ⟨htake, hdrop⟩ :=
    takeWhile_dropWhile_append (all_isInner_iff.2 hb) (c := '}') (by decide) rest
  rw [pieces]
  split
  · simp_all
  · rename_i heq
    rw [hdrop] at heq
    cases heq
    exact absurd rfl hr
  · rename_i heq
    rw [hdrop] at heq
    cases heq
    rw [htake]

theorem pieces_unclosed {body : List Char} (hb : '}' ∉ body) :
    pieces ('{' :: '{' :: body) = [.problem .unterminated ('{' :: '{' :: body)] := by
  have hdrop : body.dropWhile isInner = [] :=
    List.dropWhile_eq_nil_iff.2 (List.all_eq_true.1 (all_isInner_iff.2 hb))
  rw [pieces]
  split <;> simp_all

theorem head?_append_ne {body : List Char} (hb : BraceFree body) (rest : List Char) :
    (body ++ '}' :: rest).head? ≠ some '{' := by
  cases body with
  | nil => simp
  | cons c body =>
    intro h
    cases h
    exact hb.1 List.mem_cons_self

theorem pieces_double {body : List Char} (hb : BraceFree body) (rest : List Char) :
    pieces ('{' :: (body ++ '}' :: '}' :: rest)) =
      .problem .singleBraces ('{' :: (body ++ ['}', '}'])) :: pieces rest := by
  obtain ⟨htake, hdrop⟩ :=
    takeWhile_dropWhile_append (all_isPlain_iff.2 hb) (c := '}') (by decide) ('}' :: rest)
  rw [pieces]
  · split <;> simp_all
  · exact fun more he => head?_append_ne hb _ (congrArg List.head? he)

theorem pieces_single {body rest : List Char} (hb : BraceFree body) (hr : rest.head? ≠ some '}') :
    pieces ('{' :: (body ++ '}' :: rest)) =
      .problem .singleBraces ('{' :: (body ++ ['}'])) :: pieces rest := by
  obtain ⟨htake, hdrop⟩ :=
    takeWhile_dropWhile_append (all_isPlain_iff.2 hb) (c := '}') (by decide) rest
  rw [pieces]
  · split
    · rename_i heq
      rw [hdrop] at heq
      cases heq
      exact absurd rfl hr
    · simp_all
    · simp_all
  · exact fun more he => head?_append_ne hb _ (congrArg List.head? he)

theorem pieces_lone {rest : List Char} (hr : rest.head? ≠ some '{')
    (hf : rest.find? isBrace ≠ some '}') :
    pieces ('{' :: rest) = .problem .unmatchedOpen ['{'] :: pieces rest := by
  rw [find?_isBrace] at hf
  rw [pieces]
  · split <;> simp_all
  · rintro more rfl
    exact hr rfl

theorem pieces_closers (rest : List Char) :
    pieces ('}' :: '}' :: rest) = .problem .unmatchedClose ['}', '}'] :: pieces rest := by
  rw [pieces]

theorem pieces_closer {rest : List Char} (hr : rest.head? ≠ some '}') :
    pieces ('}' :: rest) = .problem .unmatchedClose ['}'] :: pieces rest := by
  rw [pieces]
  rintro more rfl
  exact hr rfl

/-- A mark adds its piece to the pieces of what follows it. -/
theorem pieces_append_mark {piece : Piece} {mark rest : List Char} (h : Marks piece mark rest) :
    pieces (mark ++ rest) = piece :: pieces rest := by
  cases h with
  | @token body _ hb ht =>
    have h := pieces_closed (all_isInner_iff.2 hb) rest
    rw [bodyPiece_of_not_blank ht] at h
    simpa using h
  | problem h =>
    cases h with
    | @empty body _ hb ht =>
      have h := pieces_closed (all_isInner_iff.2 hb) rest
      rw [bodyPiece_of_blank ht] at h
      simpa using h
    | cut hb hr => simpa using pieces_cut hb hr
    | unclosed hb => simpa [pieces] using pieces_unclosed hb
    | double hb => simpa using pieces_double hb rest
    | single hb hr => simpa using pieces_single hb hr
    | lone hr hf => exact pieces_lone hr hf
    | closers => exact pieces_closers rest
    | closer hr => exact pieces_closer hr

/-- A text is split by its pieces and by nothing else. -/
theorem pieces_eq_iff {s : List Char} {ps : List Piece} : pieces s = ps ↔ Splits s ps := by
  refine ⟨fun h => h ▸ splits_pieces s, fun h => ?_⟩
  induction h with
  | last hg => exact pieces_of_plain (all_isPlain_iff.2 hg)
  | piece hg hm _ ih => rw [pieces_append_of_plain (all_isPlain_iff.2 hg), pieces_append_mark hm, ih]

/-! ## What the split says -/

theorem pieces_eq_nil_iff {s : List Char} : pieces s = [] ↔ BraceFree s := by
  refine ⟨fun h => ?_, fun h => pieces_of_plain (all_isPlain_iff.2 h)⟩
  cases pieces_eq_iff.1 h with
  | last hg => exact hg

/-! ## Whole placeholders -/

/-- A text that is one placeholder, with nothing around it. -/
def IsWhole (s token : List Char) : Prop :=
  ∃ body, s = '{' :: '{' :: (body ++ ['}', '}']) ∧ '}' ∉ body ∧ trimChars body = token ∧ token ≠ []

theorem soleToken?_eq_some_iff {s token : List Char} :
    soleToken? s = some token ↔ IsWhole s token := by
  constructor
  · intro h
    obtain ⟨body, hs, hall, ht, hne⟩ := soleToken?_eq_some h
    exact ⟨body, hs, all_isInner_iff.1 hall, ht, hne⟩
  · rintro ⟨body, rfl, hb, rfl, hne⟩
    have hr : (body ++ ['}', '}']).reverse = '}' :: '}' :: body.reverse := by simp
    simp only [soleToken?, hr, List.reverse_reverse]
    rw [if_pos (all_isInner_iff.2 hb)]

end VideoScript.Placeholder
