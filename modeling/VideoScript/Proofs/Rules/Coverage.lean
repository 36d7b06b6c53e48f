import VideoScript.Proofs.Placeholder.Groups
import VideoScript.Rules.Coverage

/-!
# What the rule about the merge array guarantees

Without an error the document has neither entries nor placeholders, or its entries give no error
(`coverage_cases`). From this follow the two things that the rule is for:

* `exists_entry_of_coverage`: every placeholder of the scan has an entry whose trimmed name it is.
  The names that the rule gathers are names of entries (`mem_names`), and a placeholder that is not
  among them is an error.
* `complete_of_coverage`: every entry has a name and a value, for an entry that lacks one is an
  error too (`entriesFindings_clean_iff`).
-/

set_option autoImplicit false

namespace VideoScript.Rules

open Json Placeholder Text

/-- Whether a merge entry has a placeholder's name, but for the blanks around it. -/
def IsNamed (entry : Json) (token : String) : Prop := (entryName? entry).map trim = some token

/-- A merge entry with a name and a value, both of them texts. -/
def IsEntry (entry : Json) (find replace : String) : Prop :=
  ∃ members : Members, entry = .object members ∧ members.get? "find" = some (.string find) ∧
    members.get? "replace" = some (.string replace)

/-! ## The names of entries -/

theorem mem_nameFindings {names : Names} {path : Path} {i : Nat} {find : String} {n : String × Nat}
    (h : n ∈ (nameFindings names path i find).2) : n ∈ names ∨ n.1 = trim find := by
  unfold nameFindings at h
  dsimp only at h
  split at h
  · exact .inl h
  · split at h
    · exact .inl h
    · rcases List.mem_append.1 h with h | h
      · exact .inl h
      · rw [List.mem_singleton.1 h]
        exact .inr rfl

theorem mem_entryFindings {names : Names} {path : Path} {i : Nat} {entry : Json}
    {n : String × Nat} (h : n ∈ (entryFindings names path i entry).2) :
    n ∈ names ∨ IsNamed entry n.1 := by
  unfold entryFindings at h
  split at h
  · split at h
    · exact .inl h
    · rename_i find hf
      dsimp only at h
      rcases mem_nameFindings h with h | he
      · exact .inl h
      · exact .inr (by rw [IsNamed, hf, he, Option.map_some])
  · exact .inl h

theorem mem_names {path : Path} {names : Names} {i : Nat} {entries : List Json} {n : String × Nat}
    (h : n ∈ (entriesFindings path names i entries).2) :
    n ∈ names ∨ ∃ entry ∈ entries, IsNamed entry n.1 := by
  induction entries generalizing names i with
  | nil => exact .inl h
  | cons entry rest ih =>
    rw [entriesFindings] at h
    rcases ih h with h | ⟨e, he, hn⟩
    · rcases mem_entryFindings h with h | h
      · exact .inl h
      · exact .inr ⟨entry, List.mem_cons_self, h⟩
    · exact .inr ⟨e, List.mem_cons_of_mem _ he, hn⟩

/-! ## Placeholders without an entry -/

theorem mem_keys_grouped {s : Scan} {o : Occurrence} (h : o ∈ s.occurrences) :
    o.token ∈ s.grouped.map (·.1) := by
  rw [Scan.keys_grouped, List.mem_eraseDups]
  exact List.mem_map_of_mem h

theorem filledMerge_names {path : Path} {entries : List Json} {groups : List (String × List Path)}
    (h : ∀ f ∈ filledMerge path entries groups, f.isError = false) {token : String}
    (ht : token ∈ groups.map (·.1)) : ∃ entry ∈ entries, IsNamed entry token := by
  obtain ⟨⟨token, paths⟩, hg, rfl⟩ := List.mem_map.1 ht
  cases hl : (entriesFindings path [] 0 entries).2.lookup token with
  | none =>
    have hmem : uncoveredFinding token paths ∈ filledMerge path entries groups := by
      unfold filledMerge
      rw [List.mem_append, List.mem_append]
      exact .inl (.inr (List.mem_map.2 ⟨_, List.mem_filter.2 ⟨hg, by simp [hl]⟩, rfl⟩))
    exact absurd rfl (Finding.not_error_of_mem h hmem)
  | some i =>
    obtain ⟨before, after, hm, -⟩ := List.lookup_eq_some_iff.1 hl
    have hm : (token, i) ∈ (entriesFindings path [] 0 entries).2 := by simp [hm]
    exact (mem_names hm).resolve_left (by simp)

/-- Without an error there are no entries and no placeholders, or the entries give no error. -/
theorem coverage_cases {doc : Document} {s : Scan}
    (h : ∀ f ∈ coverage doc s, f.isError = false) :
    doc.mergeEntries = [] ∧ s.grouped = [] ∨
      ∃ path, ∀ f ∈ filledMerge path doc.mergeEntries s.grouped, f.isError = false := by
  unfold coverage at h
  unfold Document.mergeEntries
  split at h
  · rename_i hm
    cases hg : s.grouped with
    | nil => exact .inl ⟨by rw [hm]; rfl, rfl⟩
    | cons g rest =>
      rw [hg] at h
      exact absurd rfl (Finding.not_error_of_mem h List.mem_cons_self)
  · rename_i hm
    cases hg : s.grouped with
    | nil => exact .inl ⟨by rw [hm]; rfl, rfl⟩
    | cons g rest =>
      rw [hg] at h
      exact absurd rfl (Finding.not_error_of_mem h List.mem_cons_self)
  · rename_i entries path _ hm
    rw [hm]
    exact .inr ⟨path, h⟩
  · exact absurd rfl (Finding.not_error_of_mem h List.mem_cons_self)

/-- When the rule finds no error, every placeholder has an entry. -/
theorem exists_entry_of_coverage {doc : Document} {s : Scan}
    (h : ∀ f ∈ coverage doc s, f.isError = false) {o : Occurrence} (ho : o ∈ s.occurrences) :
    ∃ entry ∈ doc.mergeEntries, IsNamed entry o.token := by
  have hkey := mem_keys_grouped ho
  rcases coverage_cases h with ⟨-, hnone⟩ | ⟨path, hfilled⟩
  · rw [hnone] at hkey
    cases hkey
  · exact filledMerge_names hfilled hkey

/-! ## Complete entries -/

theorem entryShapeFindings_clean_iff {path : Path} {members : Members} :
    (∀ f ∈ entryShapeFindings path members, f.isError = false) ↔
      ∃ find replace, IsEntry (.object members) find replace := by
  constructor
  · intro h
    unfold entryShapeFindings at h
    split at h
    · exact absurd rfl (Finding.not_error_of_mem h List.mem_cons_self)
    · rename_i find hf
      split at h
      · exact absurd rfl (Finding.not_error_of_mem h List.mem_cons_self)
      · rename_i replace hr
        exact ⟨find, replace, members, rfl, hf, hr⟩
      · exact absurd rfl (Finding.not_error_of_mem h List.mem_cons_self)
    · exact absurd rfl (Finding.not_error_of_mem h List.mem_cons_self)
  · rintro ⟨find, replace, _, he, hf, hr⟩
    cases he
    simp [entryShapeFindings, hf, hr]

theorem nameFindings_clean {names : Names} {path : Path} {i : Nat} {name : String} :
    ∀ f ∈ (nameFindings names path i name).1, f.isError = false := by
  unfold nameFindings
  dsimp only
  split
  · simp [Finding.isError, Finding.warning, Finding.plain, Finding.suggest]
  · split <;> simp [Finding.isError, Finding.warning, Finding.plain]

theorem entryFindings_clean_iff {names : Names} {path : Path} {i : Nat} {entry : Json} :
    (∀ f ∈ (entryFindings names path i entry).1, f.isError = false) ↔
      ∃ find replace, IsEntry entry find replace := by
  unfold entryFindings
  split
  · split
    · exact entryShapeFindings_clean_iff
    · dsimp only
      rw [List.forall_mem_append, and_iff_left nameFindings_clean]
      exact entryShapeFindings_clean_iff
  · rename_i entry hobject
    refine iff_of_false (fun h => ?_) ?_
    · exact absurd rfl (Finding.not_error_of_mem h List.mem_cons_self)
    · rintro ⟨find, replace, members, rfl, -⟩
      exact hobject members rfl

/-- The entries give no error exactly when all of them are complete. -/
theorem entriesFindings_clean_iff {path : Path} {names : Names} {i : Nat} {entries : List Json} :
    (∀ f ∈ (entriesFindings path names i entries).1, f.isError = false) ↔
      ∀ entry ∈ entries, ∃ find replace, IsEntry entry find replace := by
  induction entries generalizing names i with
  | nil => simp [entriesFindings]
  | cons entry rest ih =>
    rw [entriesFindings, List.forall_mem_cons]
    dsimp only
    rw [List.forall_mem_append, entryFindings_clean_iff, ih]

theorem IsEntry.trim_find {entry : Json} {find replace token : String}
    (h : IsEntry entry find replace) (hn : IsNamed entry token) : trim find = token := by
  obtain ⟨members, rfl, hf, -⟩ := h
  have hname : entryName? (.object members) = some find := by
    show (members.get? "find").bind text? = some find
    rw [hf]
    rfl
  rw [IsNamed, hname] at hn
  exact Option.some.inj hn

/-- When the rule finds no error, every entry is complete. -/
theorem complete_of_coverage {doc : Document} {s : Scan}
    (h : ∀ f ∈ coverage doc s, f.isError = false) {entry : Json} (he : entry ∈ doc.mergeEntries) :
    ∃ find replace, IsEntry entry find replace := by
  rcases coverage_cases h with ⟨hnone, -⟩ | ⟨path, hfilled⟩
  · rw [hnone] at he
    cases he
  · unfold filledMerge at hfilled
    dsimp only at hfilled
    rw [List.append_assoc, List.forall_mem_append] at hfilled
    exact entriesFindings_clean_iff.1 hfilled.1 entry he

end VideoScript.Rules
