import VideoScript.Proofs.Media.References
import VideoScript.Proofs.Placeholder.Splitting
import VideoScript.Proofs.Placeholder.Walk

/-!
# Texts that are one placeholder

A text is one whole placeholder exactly when it starts with two opening braces, ends with two
closing ones and has that placeholder as its only piece (`isWhole_iff`). The braces at its ends are
needed: the pieces do not tell what stands around a placeholder.

So the three ways to recognise a placeholder agree. Where the look-up of media files takes a source
for one placeholder, the scan has this placeholder at the place of the source and nothing else
(`recordedAt`), and the rules leave the value for later (`containsToken_of_trimmed`).
-/

set_option autoImplicit false

namespace VideoScript.Placeholder

open Json Text Media

variable {s token : List Char}

/-! ## One piece -/

theorem pieces_of_isWhole (h : IsWhole s token) : pieces s = [.token token] := by
  obtain ⟨body, rfl, hb, rfl, hne⟩ := h
  have hp := pieces_closed (all_isInner_iff.2 hb) []
  rw [bodyPiece_of_not_blank hne] at hp
  simpa [pieces] using hp

/-- A text that starts with an opening brace has no gap before its first piece. -/
theorem gap_eq_nil {gap rest after : List Char} (hg : BraceFree gap)
    (h : gap ++ rest = '{' :: after) : gap = [] := by
  cases gap with
  | nil => rfl
  | cons c gap =>
    obtain ⟨rfl, -⟩ := List.cons.inj h
    exact absurd List.mem_cons_self hg.1

/-- A text that ends with a closing brace has no gap after its last piece. -/
theorem last_gap_eq_nil {gap before rest : List Char} (hg : BraceFree gap)
    (h : rest ++ gap = before ++ ['}']) : gap = [] := by
  cases gap using List.reverseRecOn with
  | nil => rfl
  | append_singleton gap c =>
    rw [← List.append_assoc] at h
    obtain ⟨-, hc⟩ := List.append_inj' h rfl
    obtain ⟨rfl, -⟩ := List.cons.inj hc
    exact absurd (List.mem_append_right gap List.mem_cons_self) hg.2

/-- A text is one placeholder exactly when it has it as its only piece and braces at both ends. -/
theorem isWhole_iff :
    IsWhole s token ↔ ['{', '{'] <+: s ∧ ['}', '}'] <:+ s ∧ pieces s = [.token token] := by
  constructor
  · intro h
    have hp := pieces_of_isWhole h
    obtain ⟨body, rfl, -, -, -⟩ := h
    exact ⟨⟨body ++ ['}', '}'], rfl⟩, ⟨'{' :: '{' :: body, rfl⟩, hp⟩
  · rintro ⟨⟨after, hstart⟩, ⟨before, hend⟩, hp⟩
    cases pieces_eq_iff.1 hp with
    | @piece gap mark rest _ _ hg hm hr =>
      cases hm with
      | @token body _ hb ht =>
        cases hr with
        | last hlast =>
          obtain rfl : gap = [] := gap_eq_nil hg hstart.symm
          have hends : '{' :: '{' :: (body ++ ['}', '}']) ++ rest = (before ++ ['}']) ++ ['}'] := by
            simpa using hend.symm
          obtain rfl : rest = [] := last_gap_eq_nil hlast hends
          exact ⟨body, by simp, hb, rfl, ht⟩

/-- Blanks around a placeholder add no piece. -/
theorem pieces_of_trimmed (h : IsWhole (trimChars s) token) : pieces s = [.token token] := by
  obtain ⟨before, after, hs, hb, ha⟩ := exists_trimChars s
  obtain ⟨body, hi, hbody, rfl, hne⟩ := h
  have hp := pieces_closed (all_isInner_iff.2 hbody) after
  rw [pieces_of_plain (all_isPlain_iff.2 (braceFree_of_blank ha)),
    bodyPiece_of_not_blank hne] at hp
  rw [hs, hi, pieces_append_of_plain (all_isPlain_iff.2 (braceFree_of_blank hb))]
  simpa using hp

/-- A placeholder starts and ends with braces, so there is nothing to trim. -/
theorem trimChars_of_isWhole (h : IsWhole s token) : trimChars s = s := by
  obtain ⟨body, rfl, -, -, -⟩ := h
  refine trimChars_eq_self (trimStartChars_cons_of_not_blank (by decide)) ?_
  have hend : trimEndChars (('{' :: '{' :: (body ++ ['}'])) ++ ['}']) =
      ('{' :: '{' :: (body ++ ['}'])) ++ ['}'] := trimEndChars_append_of_not_blank (by decide)
  simpa using hend

/-! ## One placeholder in a document -/

section
variable {doc : Document} {leaf : Leaf}

/-- What the scan notes at the place of a string is what this string alone gives. -/
theorem filter_scanned {α : Type} {found : Leaf → List α} {pathOf : α → Path}
    (hpath : ∀ leaf, ∀ x ∈ found leaf, pathOf x = leaf.path) (hdoc : WellFormed doc.toJson)
    (hl : leaf ∈ scannedLeaves doc) :
    ((scannedLeaves doc).flatMap found).filter (fun x => pathOf x = leaf.path) = found leaf := by
  have hnodup : ((scannedLeaves doc).map (·.path)).Nodup := by
    rw [scannedLeaves_eq]
    exact (nodup_paths hdoc).sublist (List.filter_sublist.map _)
  rw [List.filter_flatMap]
  have hgiven : ∀ other ∈ scannedLeaves doc,
      (found other).filter (fun x => pathOf x = leaf.path) =
        if other.path = leaf.path then found other else [] := by
    intro other _
    split
    · next he => exact List.filter_eq_self.2 fun x hx => by simp [hpath other x hx, he]
    · next hne => exact List.filter_eq_nil_iff.2 fun x hx => by simp [hpath other x hx, hne]
  rw [flatMap_eq_flatMap_filter (p := fun other => other.path = leaf.path)
    (by simpa using hgiven), filter_key_eq hnodup hl, List.flatMap_singleton]

theorem path_of_leafOccurrences {o : Occurrence} (h : o ∈ leafOccurrences leaf) :
    o.path = leaf.path := by
  obtain ⟨piece, -, hpiece⟩ := List.mem_filterMap.1 h
  cases piece <;> cases hpiece
  rfl

theorem path_of_leafIssues {i : Issue} (h : i ∈ leafIssues leaf) : i.path = leaf.path := by
  obtain ⟨piece, -, hpiece⟩ := List.mem_filterMap.1 h
  cases piece with
  | token name => cases hpiece
  | problem kind text =>
    dsimp only at hpiece
    split at hpiece <;> cases hpiece
    rfl

/-- The scan has one placeholder at a path, and nothing else there. -/
structure RecordedAt (doc : Document) (path : Path) (token : List Char) : Prop where
  occurrences : (scan doc).occurrences.filter (fun o => o.path = path) = [⟨.ofList token, path⟩]
  issues : (scan doc).issues.filter (fun i => i.path = path) = []

theorem recordedAt (hdoc : WellFormed doc.toJson) (hl : leaf ∈ scannedLeaves doc)
    (h : IsWhole (trimChars leaf.text.toList) token) : RecordedAt doc leaf.path token where
  occurrences := by
    rw [scan, filter_scanned (fun _ _ => path_of_leafOccurrences) hdoc hl, leafOccurrences,
      pieces_of_trimmed h]
    rfl
  issues := by
    rw [scan, filter_scanned (fun _ _ => path_of_leafIssues) hdoc hl, leafIssues,
      pieces_of_trimmed h]
    rfl

end

theorem containsToken_of_trimmed (h : IsWhole (trimChars s) token) : containsToken s = true := by
  rw [containsToken, pieces_of_trimmed h]
  rfl

/-! ## The recognisers -/

/-- **The recognisers of placeholders agree.** A text is taken for one placeholder exactly when it
starts with two opening braces, ends with two closing ones and has this placeholder as its only
piece; there is then nothing to trim. Where a string outside the merge arrays is taken for one
placeholder once it is trimmed, the scan has this placeholder at its place and nothing else, and the
value of the string is left for later. So it is with every reference to a media file through a
placeholder. -/
theorem recognisers_agree :
    (∀ s token : List Char,
      (soleToken? s = some token ↔
        ['{', '{'] <+: s ∧ ['}', '}'] <:+ s ∧ pieces s = [.token token]) ∧
      (soleToken? s = some token → trimChars s = s)) ∧
    ∀ doc : Document, WellFormed doc.toJson →
      (∀ leaf ∈ leaves doc.toJson, inMerge leaf.path = false → ∀ token,
        soleToken? (trimChars leaf.text.toList) = some token →
          RecordedAt doc leaf.path token ∧ containsToken leaf.text.toList = true) ∧
      ∀ r ∈ references doc, ∀ token, r.token = some token →
        RecordedAt doc r.location token.toList ∧
          ∃ text, PartAt doc.toJson r.location (.string text) ∧
            containsToken text.toList = true := by
  refine ⟨fun s token => ⟨soleToken?_eq_some_iff.trans isWhole_iff, fun h => ?_⟩,
    fun doc hdoc => ⟨?_, ?_⟩⟩
  · exact trimChars_of_isWhole (soleToken?_eq_some_iff.1 h)
  · intro leaf hl houtside token h
    have hscanned : leaf ∈ scannedLeaves doc := by
      rw [scannedLeaves_eq, List.mem_filter]
      exact ⟨hl, by simp [houtside]⟩
    have hwhole := soleToken?_eq_some_iff.1 h
    exact ⟨recordedAt hdoc hscanned hwhole, containsToken_of_trimmed hwhole⟩
  · intro r hr token ht
    obtain ⟨leaf, hl, hloc, hsole, -⟩ := exists_soleToken hr ht
    have hwhole := soleToken?_eq_some_iff.1 hsole
    have hleaf : leaf ∈ leaves doc.toJson := by
      rw [scannedLeaves_eq] at hl
      exact (List.mem_filter.1 hl).1
    rw [← hloc]
    exact ⟨recordedAt hdoc hl hwhole, leaf.text, .of_leaf hdoc hleaf,
      containsToken_of_trimmed hwhole⟩

/-- A timeline with a source that is one placeholder and one with blanks around it. -/
def placeholderSources : Document :=
  ⟨[("timeline", .array [.object [("src", .string "\x7b\x7ba.mp4\x7d\x7d")],
    .object [("src", .string " \x7b\x7b b\x7b.mp4 \x7d\x7d ")]])]⟩

theorem recognisers_agree_sources :
    let source : String := "\x7b\x7ba.mp4\x7d\x7d"
    let first := ((Path.root.key "timeline").index 0).key "src"
    let second := ((Path.root.key "timeline").index 1).key "src"
    WellFormed placeholderSources.toJson ∧
      soleToken? source.toList = some "a.mp4".toList ∧ trimChars source.toList = source.toList ∧
      RecordedAt placeholderSources first "a.mp4".toList ∧
      ⟨"b\x7b.mp4", second, some "b\x7b.mp4"⟩ ∈ references placeholderSources ∧
      RecordedAt placeholderSources second "b\x7b.mp4".toList := by
  intro source first second
  have hdoc : WellFormed placeholderSources.toJson := by decide +kernel
  have hsole : soleToken? source.toList = some "a.mp4".toList := by decide +kernel
  have href : ⟨"b\x7b.mp4", second, some "b\x7b.mp4"⟩ ∈ references placeholderSources := by
    decide +kernel
  obtain ⟨htexts, hdocs⟩ := recognisers_agree
  have htrim := (htexts source.toList _).2 hsole
  obtain ⟨hleaf, hreference⟩ := hdocs placeholderSources hdoc
  have hfirst := hleaf ⟨first, source⟩ (by decide +kernel) (by decide +kernel) _
    (htrim.symm ▸ hsole)
  exact ⟨hdoc, hsole, htrim, hfirst.1, href, (hreference _ href _ rfl).1⟩

end VideoScript.Placeholder
