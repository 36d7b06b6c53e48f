import VideoScript.Proofs.Placeholder.Splitting

/-!
# Placeholders are the leftmost matches

A match is `{{`, one or more characters other than `}`, and `}}`. `Leftmost s bodies` says that
`bodies` stand between the braces of the matches in `s` that a search from left to right finds, each
search starting where the last match ended: no match starts anywhere before the one that is taken
(`Quiet`). There is only one such list (`Leftmost.unique`).

The placeholders of a text are the trimmed bodies of these matches, without those that are blank
(`Splits.leftmost`). `pieces_lose_no_brace` puts this together with the split of the text.
-/

set_option autoImplicit false

namespace VideoScript.Placeholder

open Text

/-- A match with `body` between its braces starts a text, and `rest` follows it. -/
def Begins (s body rest : List Char) : Prop :=
  s = '{' :: '{' :: (body ++ '}' :: '}' :: rest) ∧ body ≠ [] ∧ '}' ∉ body

/-- No match starts a text. -/
def Idle (s : List Char) : Prop := ∀ body rest, ¬ Begins s body rest

/-- No match starts at any character of `s` when `rest` follows. -/
def Quiet (s rest : List Char) : Prop := ∀ t, t <:+ s → t ≠ [] → Idle (t ++ rest)

/-- The bodies of the matches of a text, leftmost first and without overlaps. -/
inductive Leftmost : List Char → List (List Char) → Prop where
  | none {s : List Char} : Quiet s [] → Leftmost s []
  | next {before s body rest : List Char} {bodies : List (List Char)} : Quiet before s →
      Begins s body rest → Leftmost rest bodies → Leftmost (before ++ s) (body :: bodies)

/-! ## Where no match starts -/

theorem idle_cons {c : Char} {s : List Char} (h : c ≠ '{' ∨ s.head? ≠ some '{') :
    Idle (c :: s) := by
  rintro body rest ⟨he, -, -⟩
  cases he
  simp at h

theorem idle_of_not_mem {s : List Char} (h : '}' ∉ s) : Idle s := by
  rintro body rest ⟨rfl, -, -⟩
  simp at h

/-- What follows the first closing brace decides whether a match starts before it. -/
theorem idle_append {s rest : List Char} (hs : '}' ∉ s) (hr : rest.head? ≠ some '}') :
    Idle (s ++ '}' :: rest) := by
  rintro body more ⟨he, -, hb⟩
  have hbody : '}' ∉ '{' :: '{' :: body := by simpa using hb
  obtain ⟨-, hrest⟩ := append_close_inj hs hbody he
  rw [hrest] at hr
  exact hr rfl

theorem quiet_nil (rest : List Char) : Quiet [] rest :=
  fun _ ht hne => absurd (List.suffix_nil.1 ht) hne

theorem quiet_cons {c : Char} {s rest : List Char} :
    Quiet (c :: s) rest ↔ Idle (c :: (s ++ rest)) ∧ Quiet s rest := by
  refine ⟨fun h => ⟨h _ List.suffix_rfl (by simp), fun t ht => h t (ht.trans (List.suffix_cons c s))⟩,
    fun ⟨hi, hq⟩ t ht hne => ?_⟩
  rcases List.suffix_cons_iff.1 ht with rfl | ht
  · exact hi
  · exact hq t ht hne

theorem quiet_append {s t rest : List Char} :
    Quiet (s ++ t) rest ↔ Quiet s (t ++ rest) ∧ Quiet t rest := by
  induction s with
  | nil => simp [quiet_nil]
  | cons c s ih => rw [List.cons_append, quiet_cons, quiet_cons, ih, List.append_assoc, and_assoc]

/-- No match starts among characters that end with a closing brace that does not end a match. -/
theorem quiet_cut {s rest : List Char} (hs : '}' ∉ s) (hr : rest.head? ≠ some '}') :
    Quiet (s ++ ['}']) rest := by
  intro t ht hne
  rcases List.suffix_concat_iff.1 ht with rfl | ⟨u, rfl, hu⟩
  · exact absurd rfl hne
  · have h := idle_append (fun hm => hs (hu.subset hm)) hr
    simpa using h

theorem quiet_of_not_mem {s : List Char} (h : '{' ∉ s) (rest : List Char) : Quiet s rest := by
  induction s with
  | nil => exact quiet_nil rest
  | cons c s ih =>
    rw [List.mem_cons, not_or] at h
    exact quiet_cons.2 ⟨idle_cons (.inl (Ne.symm h.1)), ih h.2⟩

/-- No match starts at a single opening brace or between it and the brace that closes it. -/
theorem quiet_braced {body : List Char} (hb : BraceFree body) {closers : List Char}
    (hc : '{' ∉ closers) (rest : List Char) : Quiet ('{' :: (body ++ '}' :: closers)) rest := by
  have hhead := head?_append_ne hb (closers ++ rest)
  refine quiet_cons.2 ⟨idle_cons (.inr (by simpa using hhead)), ?_⟩
  exact quiet_of_not_mem (by simpa using ⟨hb.1, hc⟩) rest

/-- Braces with nothing at all between them are no match. -/
theorem quiet_bare (rest : List Char) : Quiet ['{', '{', '}', '}'] rest := by
  have hidle : Idle ('{' :: '{' :: '}' :: '}' :: rest) := by
    rintro body more ⟨he, hne, hb⟩
    cases body with
    | nil => exact hne rfl
    | cons c body =>
      simp only [List.cons_append, List.cons.injEq, true_and] at he
      exact hb (he.1 ▸ List.mem_cons_self)
  exact quiet_cons.2 ⟨hidle, quiet_braced braceFree_nil (by simp) rest⟩

/-- No match starts in a problem, but for a placeholder of blanks. -/
theorem Misplaced.quiet {kind : Problem} {mark rest : List Char} (h : Misplaced kind mark rest)
    (hk : kind ≠ .empty) : Quiet mark rest := by
  cases h with
  | empty => exact absurd rfl hk
  | @cut body _ hb hr =>
    exact quiet_cut (s := '{' :: '{' :: body) (by simpa using hb) hr
  | @unclosed body hb =>
    intro t ht _
    have hm : '}' ∉ '{' :: '{' :: body := by simpa using hb
    rw [List.append_nil]
    exact idle_of_not_mem fun h => hm (ht.subset h)
  | double hb => exact quiet_braced hb (by simp) _
  | single hb hr => exact quiet_braced hb (by simp) _
  | lone hr hf => exact quiet_cons.2 ⟨idle_cons (.inr hr), quiet_nil _⟩
  | closers => exact quiet_of_not_mem (by simp) _
  | closer hr => exact quiet_of_not_mem (by simp) _

/-! ## Leftmost matches -/

/-- A search passes over characters at which no match starts. -/
theorem Leftmost.skip {before s : List Char} {bodies : List (List Char)} (hq : Quiet before s)
    (h : Leftmost s bodies) : Leftmost (before ++ s) bodies := by
  cases h with
  | none hs => exact .none (quiet_append.2 ⟨by rwa [List.append_nil], hs⟩)
  | next hb hm hr =>
    rw [← List.append_assoc]
    exact .next (quiet_append.2 ⟨hq, hb⟩) hm hr

theorem Begins.inj {s body rest body' rest' : List Char} (h : Begins s body rest)
    (h' : Begins s body' rest') : body = body' ∧ rest = rest' := by
  obtain ⟨rfl, -, hb⟩ := h
  obtain ⟨he, -, hb'⟩ := h'
  simp only [List.cons.injEq, true_and] at he
  obtain ⟨hbody, hrest⟩ := append_close_inj hb hb' he
  exact ⟨hbody, (List.cons.inj hrest).2⟩

/-- A search that has met no match stands before every match. -/
theorem Quiet.prefix_of_begins {before s before' s' body rest : List Char} (hq : Quiet before s)
    (he : before ++ s = before' ++ s') (hm : Begins s' body rest) : before <+: before' := by
  rcases List.append_eq_append_iff.1 he with ⟨c, rfl, -⟩ | ⟨c, rfl, rfl⟩
  · exact List.prefix_append before c
  · by_cases hc : c = []
    · simp [hc]
    · have hi := (quiet_append.1 hq).2 c List.suffix_rfl hc
      exact absurd hm (hi _ _)

theorem Quiet.idle {before s : List Char} (hq : Quiet (before ++ s) []) : Idle s := by
  by_cases hs : s = []
  · exact idle_of_not_mem (by simp [hs])
  · have hi := (quiet_append.1 hq).2 s List.suffix_rfl hs
    rwa [List.append_nil] at hi

theorem Leftmost.unique {s : List Char} {bodies bodies' : List (List Char)} (h : Leftmost s bodies)
    (h' : Leftmost s bodies') : bodies = bodies' := by
  induction h generalizing bodies' with
  | none hq =>
    cases h' with
    | none => rfl
    | next _ hm _ => exact absurd hm (hq.idle _ _)
  | @next before s body rest bodies hq hm hr ih =>
    generalize hw : before ++ s = w at h'
    cases h' with
    | none hq' =>
      subst hw
      exact absurd hm (hq'.idle _ _)
    | @next before' s' body' rest' bodies' hq' hm' hr' =>
      -- neither match starts before the other, so both start at one place
      have hb : before = before' :=
        (hq.prefix_of_begins hw hm').eq_of_length_le (hq'.prefix_of_begins hw.symm hm).length_le
      subst hb
      rw [List.append_cancel_left_eq] at hw
      subst hw
      obtain ⟨rfl, rfl⟩ := hm.inj hm'
      rw [ih hr']

/-! ## Placeholders and matches -/

theorem begins_mark {body rest : List Char} (hb : '}' ∉ body) (hne : body ≠ []) :
    Begins ('{' :: '{' :: (body ++ ['}', '}']) ++ rest) body rest :=
  ⟨by simp, hne, hb⟩

/-- The placeholders that split a text are the bodies of its leftmost matches, trimmed and without
those that are blank. -/
theorem Splits.leftmost {s : List Char} {ps : List Piece} (h : Splits s ps) :
    ∃ bodies, Leftmost s bodies ∧
      ps.filterMap Piece.token? = (bodies.map trimChars).filter (· ≠ []) := by
  induction h with
  | last hg => exact ⟨[], .none (quiet_of_not_mem hg.1 _), rfl⟩
  | @piece gap mark rest piece ps hg hm _ ih =>
    obtain ⟨bodies, hl, hn⟩ := ih
    have hquiet : Quiet gap (mark ++ rest) := quiet_of_not_mem hg.1 _
    cases hm with
    | @token body _ hb ht =>
      have hne : body ≠ [] := by
        rintro rfl
        exact ht rfl
      refine ⟨body :: bodies, .next hquiet (begins_mark hb hne) hl, ?_⟩
      simp [Piece.token?, hn, ht]
    | @problem kind mark _ hp =>
      rw [List.filterMap_cons_none rfl, hn]
      by_cases hk : kind = .empty
      · subst hk
        cases hp with
        | @empty body _ hb ht =>
          by_cases hne : body = []
          · subst hne
            exact ⟨bodies, .skip hquiet (.skip (quiet_bare rest) hl), rfl⟩
          · exact ⟨body :: bodies, .next hquiet (begins_mark hb hne) hl, by simp [ht]⟩
      · exact ⟨bodies, .skip hquiet (.skip (hp.quiet hk) hl), rfl⟩

theorem tokens_of_leftmost {s : List Char} {bodies : List (List Char)} (h : Leftmost s bodies) :
    (pieces s).filterMap Piece.token? = (bodies.map trimChars).filter (· ≠ []) := by
  obtain ⟨bodies', hl, hn⟩ := (splits_pieces s).leftmost
  rwa [h.unique hl]

/-! ## Characters after a text -/

theorem Idle.append {s gap : List Char} (hg : BraceFree gap) (h : Idle s) : Idle (s ++ gap) := by
  rintro body rest ⟨he, hne, hb⟩
  have he : s ++ gap = '{' :: '{' :: (body ++ ['}', '}']) ++ rest := by simp [he]
  rcases List.append_eq_append_iff.1 he with ⟨c, hmark, rfl⟩ | ⟨c, rfl, -⟩
  · -- the closing braces of the match stand in `s`, so nothing of the match stands after it
    rcases List.eq_nil_or_concat' c with rfl | ⟨c, last, rfl⟩
    · exact h body [] ⟨by simpa using hmark.symm, hne, hb⟩
    · have hends : '{' :: '{' :: (body ++ ['}']) ++ ['}'] = s ++ c ++ [last] := by simpa using hmark
      obtain ⟨-, hlast⟩ := List.append_inj' hends rfl
      cases hlast
      exact hg.2 (by simp)
  · exact h body c ⟨by simp, hne, hb⟩

theorem Quiet.append {s rest gap : List Char} (hg : BraceFree gap) (h : Quiet s rest) :
    Quiet s (rest ++ gap) := by
  intro t ht hne
  rw [← List.append_assoc]
  exact (h t ht hne).append hg

/-- Characters that are no braces change no match before them. -/
theorem Leftmost.append {s gap : List Char} (hg : BraceFree gap) {bodies : List (List Char)}
    (h : Leftmost s bodies) : Leftmost (s ++ gap) bodies := by
  induction h with
  | none hq =>
    exact .none (quiet_append.2 ⟨by simpa using hq.append hg, quiet_of_not_mem hg.1 _⟩)
  | next hq hm hr ih =>
    obtain ⟨rfl, hne, hb⟩ := hm
    rw [List.append_assoc]
    exact .next (hq.append hg) ⟨by simp, hne, hb⟩ ih

/-- Blanks around a text change none of its placeholders. -/
theorem tokens_trimChars (s : List Char) :
    (pieces (trimChars s)).filterMap Piece.token? = (pieces s).filterMap Piece.token? := by
  obtain ⟨before, after, hs, hb, ha⟩ := exists_trimChars s
  obtain ⟨bodies, hl, hn⟩ := (splits_pieces (trimChars s)).leftmost
  have hpieces : pieces s = pieces (trimChars s ++ after) := by
    conv_lhs => rw [hs, pieces_append_of_plain (all_isPlain_iff.2 (braceFree_of_blank hb))]
  rw [hn, hpieces, tokens_of_leftmost (hl.append (braceFree_of_blank ha))]

theorem mem_tokens_iff {ps : List Piece} {token : List Char} :
    token ∈ ps.filterMap Piece.token? ↔ .token token ∈ ps := by
  rw [List.mem_filterMap]
  constructor
  · rintro ⟨piece, hm, ht⟩
    cases piece <;> cases ht
    exact hm
  · exact fun h => ⟨_, h, rfl⟩

theorem token_mem_trimChars_iff {s token : List Char} :
    .token token ∈ pieces (trimChars s) ↔ .token token ∈ pieces s := by
  rw [← mem_tokens_iff, tokens_trimChars, mem_tokens_iff]

/-! ## No brace is lost -/

/-- **No brace of a text is lost.** A text splits into brace-free gaps and the marks of its pieces,
in order, and it splits in no other way. Its placeholders are, in order, the trimmed bodies of the
leftmost matches, without those that are blank. -/
theorem pieces_lose_no_brace (s : List Char) :
    (∀ ps, Splits s ps ↔ ps = pieces s) ∧
    ∃ bodies, (∀ other, Leftmost s other ↔ other = bodies) ∧
      (pieces s).filterMap Piece.token? = (bodies.map trimChars).filter (· ≠ []) := by
  obtain ⟨bodies, hl, -⟩ := (splits_pieces s).leftmost
  refine ⟨fun ps => pieces_eq_iff.symm.trans eq_comm, bodies, fun other => ⟨fun h => ?_, ?_⟩,
    tokens_of_leftmost hl⟩
  · exact h.unique hl
  · rintro rfl
    exact hl

end VideoScript.Placeholder
