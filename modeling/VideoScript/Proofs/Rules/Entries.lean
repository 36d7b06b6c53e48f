import VideoScript.Proofs.Placeholder.Splitting
import VideoScript.Proofs.Rules.Coverage

/-!
# What the rule about the merge array reports

The rule goes through the entries with the names that it has met. What it knows of them is what
stands before an entry (`names_eq`), so its reports are those of the entries one by one
(`entriesFindings_eq`), then one error for each placeholder without an entry, and then a note on
each entry that is the first of its name and that no placeholder uses (`filledMerge_eq`).
-/

set_option autoImplicit false

namespace VideoScript.Rules

open Json Placeholder Text

instance (entry : Json) (token : String) : Decidable (IsNamed entry token) :=
  inferInstanceAs (Decidable (_ = _))

/-! ## Entries and those before them -/

/-- The items of a list, each with the items before it. -/
def withPrior {α : Type} (before : List α) : List α → List (List α × α)
  | [] => []
  | x :: rest => (before, x) :: withPrior (before ++ [x]) rest

theorem mem_withPrior_iff {α : Type} {xs before prior : List α} {x : α} :
    (prior, x) ∈ withPrior before xs ↔
      ∃ front after, xs = front ++ x :: after ∧ prior = before ++ front := by
  induction xs generalizing before with
  | nil => simp [withPrior]
  | cons y rest ih =>
    rw [withPrior, List.mem_cons, ih]
    constructor
    · rintro (h | ⟨front, after, rfl, rfl⟩)
      · cases h
        exact ⟨[], rest, rfl, (List.append_nil _).symm⟩
      · exact ⟨y :: front, after, rfl, by simp⟩
    · rintro ⟨front, after, he, rfl⟩
      cases front with
      | nil =>
        cases he
        exact .inl (by simp)
      | cons z front =>
        cases he
        exact .inr ⟨front, after, rfl, by simp⟩

/-- The index of the first entry with a name. -/
def firstNamed? (entries : List Json) (name : String) : Option Nat :=
  entries.findIdx? fun entry => IsNamed entry name

theorem firstNamed?_eq_none_iff {entries : List Json} {name : String} :
    firstNamed? entries name = none ↔ ¬ ∃ entry ∈ entries, IsNamed entry name := by
  simp [firstNamed?]

/-- The name that an entry gives, when it is not blank and no entry before has it. -/
def newName? (before : List Json) (entry : Json) : Option String :=
  ((entryName? entry).map trim).filter fun name =>
    name ≠ "" ∧ firstNamed? before name = none

theorem newName?_eq_some_iff {before : List Json} {entry : Json} {name : String} :
    newName? before entry = some name ↔
      IsNamed entry name ∧ name ≠ "" ∧ firstNamed? before name = none := by
  rw [newName?, Option.filter_eq_some_iff, decide_eq_true_iff]
  rfl

/-- The name that an entry gives, with the index of the entry. -/
def nameGiven (before : List Json) (entry : Json) : Names :=
  (newName? before entry).toList.map (·, before.length)

/-- The names that entries give, after others. -/
def namesAfter (before rest : List Json) : Names :=
  (withPrior before rest).flatMap fun (prior, entry) => nameGiven prior entry

/-! ## Reports on entries -/

/-- The warning that a name stood before. -/
def duplicateFinding (path : Path) (name : String) (first : Nat) : Finding :=
  .warning .merge (path.key "find").shown
    s!"duplicate find value '{name}' (first defined at merge[{first}])"

/-- The warning that a name is blank. -/
def blankFinding (path : Path) : Finding :=
  (Finding.warning .merge (path.key "find").shown "empty find value").suggest
    "set find to the placeholder name it replaces"

/-- What is wrong with an entry and its parts. -/
def partFindings (path : Path) : Json → List Finding
  | .object members => entryShapeFindings path members
  | _ => [.error .merge path.shown "merge entry must be an object"]

/-- The warnings about the name of an entry: it is blank, or it stood before. -/
def nameWarnings (path : Path) (before : List Json) (entry : Json) : List Finding :=
  match (entryName? entry).map trim with
  | none => []
  | some name =>
    if name = "" then [blankFinding path]
    else (firstNamed? before name).toList.map (duplicateFinding path name)

/-- The notes on the name of an entry: it is new, and no placeholder has it. -/
def nameNotes (path : Path) (tokens : List String) (before : List Json) (entry : Json) :
    List Finding :=
  ((newName? before entry).filter (· ∉ tokens)).toList.map
    (unusedFinding path · before.length)

/-! ## The names that the rule has met -/

/-- The names that the rule has met are those of the entries before. -/
def Known (names : Names) (before : List Json) : Prop :=
  ∀ name ≠ "", names.lookup name = firstNamed? before name

theorem known_nil : Known [] [] := fun _ _ => rfl

theorem firstNamed?_snoc (before : List Json) (entry : Json) (name : String) :
    firstNamed? (before ++ [entry]) name =
      (firstNamed? before name).or (if IsNamed entry name then some before.length else none) := by
  rw [firstNamed?, List.findIdx?_append]
  by_cases h : IsNamed entry name <;> simp [firstNamed?, h, List.findIdx?_cons]

/-- An entry adds the name that it gives. -/
theorem Known.snoc {names : Names} {before : List Json} (h : Known names before) (entry : Json) :
    Known (names ++ nameGiven before entry) (before ++ [entry]) := by
  intro name hne
  rw [firstNamed?_snoc, ← h name hne, List.lookup_append, nameGiven]
  cases hl : names.lookup name with
  | some i => rfl
  | none =>
    rw [Option.none_or, Option.none_or]
    by_cases hn : IsNamed entry name
    · rw [newName?_eq_some_iff.2 ⟨hn, hne, (h name hne).symm.trans hl⟩, if_pos hn]
      simp
    · rw [if_neg hn]
      cases hw : newName? before entry with
      | none => rfl
      | some other =>
        have hdiff : name ≠ other := by
          rintro rfl
          exact hn (newName?_eq_some_iff.1 hw).1
        simp [List.lookup_cons, beq_false_of_ne hdiff]

/-- Every report on an entry: on its parts, and on its name. -/
def entryReport (path : Path) (before : List Json) (entry : Json) : List Finding :=
  partFindings path entry ++ nameWarnings path before entry

theorem nameFindings_eq {names : Names} {before : List Json} (h : Known names before)
    {path : Path} {entry : Json} {find : String} (he : entryName? entry = some find) :
    nameFindings names path before.length find =
      (nameWarnings path before entry,
        names ++ nameGiven before entry) := by
  unfold nameFindings nameWarnings nameGiven newName?
  rw [he, Option.map_some, Option.filter_some]
  dsimp only
  by_cases hb : trim find = ""
  · simp [hb, blankFinding]
  · rw [if_neg (by simpa using hb), if_neg hb, h _ hb]
    cases hf : firstNamed? before (trim find) with
    | none => simp [hb]
    | some first => simp [duplicateFinding]

theorem entryFindings_eq {names : Names} {before : List Json} (h : Known names before)
    (path : Path) (entry : Json) :
    entryFindings names path before.length entry =
      (entryReport path before entry, names ++ nameGiven before entry) := by
  have hunnamed : entryName? entry = none →
      nameWarnings path before entry = [] ∧ nameGiven before entry = [] := by
    intro he
    simp [nameWarnings, nameGiven, newName?, he]
  unfold entryFindings entryReport
  split
  · rename_i members
    cases he : entryName? (.object members) with
    | none =>
      obtain ⟨hw, hn⟩ := hunnamed he
      simp [hw, hn, partFindings]
    | some find =>
      dsimp only
      rw [nameFindings_eq h he]
      rfl
  · rename_i hobject
    have he : entryName? entry = none := by
      cases entry with
      | object members => exact absurd rfl (hobject members)
      | _ => rfl
    obtain ⟨hw, hn⟩ := hunnamed he
    cases entry with
    | object members => exact absurd rfl (hobject members)
    | _ => simp [hw, hn, partFindings]

/-- The rule reports on the entries one by one, and it meets the names that they give. -/
theorem entriesFindings_eq (path : Path) {names : Names} {before : List Json}
    (h : Known names before) (rest : List Json) :
    entriesFindings path names before.length rest =
      ((withPrior before rest).flatMap fun (prior, entry) =>
          entryReport (path.index prior.length) prior entry,
        names ++ namesAfter before rest) ∧
    Known (names ++ namesAfter before rest) (before ++ rest) := by
  induction rest generalizing names before with
  | nil => exact ⟨by simp [entriesFindings, withPrior, namesAfter], by simpa [namesAfter, withPrior]⟩
  | cons entry rest ih =>
    obtain ⟨hrun, hknown⟩ := ih (h.snoc entry)
    have hnames : namesAfter before (entry :: rest) =
        nameGiven before entry ++ namesAfter (before ++ [entry]) rest := List.flatMap_cons
    have hlength : (before ++ [entry]).length = before.length + 1 := by simp
    rw [hlength] at hrun
    constructor
    · rw [entriesFindings, entryFindings_eq h]
      dsimp only
      rw [hrun, withPrior, List.flatMap_cons, hnames, List.append_assoc]
    · rw [hnames, ← List.append_assoc]
      simpa using hknown

/-! ## The whole report -/

/-- The paths at which a placeholder stands. -/
def pathsOf (s : Scan) (token : String) : List Path :=
  (s.occurrences.filter (·.token = token)).map (·.path)

/-- The placeholders that no entry names, in the order in which they come first. -/
def missingTokens (s : Scan) (entries : List Json) : List String :=
  (s.occurrences.map (·.token)).eraseDups.filter fun token =>
    ¬ ∃ entry ∈ entries, IsNamed entry token

theorem grouped_eq (s : Scan) :
    s.grouped = (s.occurrences.map (·.token)).eraseDups.map fun token => (token, pathsOf s token) :=
  Scan.foldl_addPath Occurrence.token Occurrence.path s.occurrences

theorem lookup_grouped {s : Scan} {name : String} :
    (s.grouped.lookup name).isNone = true ↔ name ∉ s.occurrences.map (·.token) := by
  rw [Option.isNone_iff_eq_none, List.lookup_eq_none_iff, grouped_eq]
  simp [@eq_comm _ name]

theorem token_ne_nil {s : List Char} {ps : List Piece} (h : Splits s ps) {token : List Char}
    (ht : .token token ∈ ps) : token ≠ [] := by
  induction h with
  | last _ => cases ht
  | piece _ hm _ ih =>
    rcases List.mem_cons.1 ht with he | ht
    · subst he
      cases hm with
      | token _ hne => exact hne
    · exact ih ht

theorem token_ne_empty {doc : Document} {o : Occurrence} (h : o ∈ (scan doc).occurrences) :
    o.token ≠ "" := by
  obtain ⟨leaf, -, ho⟩ := List.mem_flatMap.1 h
  obtain ⟨piece, hp, hpiece⟩ := List.mem_filterMap.1 ho
  cases piece with
  | problem kind text => cases hpiece
  | token name =>
    cases hpiece
    intro he
    exact token_ne_nil (splits_pieces _) hp (String.ofList_eq_empty_iff.1 he)

/-- The placeholders without an entry are those that the names met do not have. -/
theorem missingTokens_eq {s : Scan} {entries : List Json} (hs : ∀ o ∈ s.occurrences, o.token ≠ "")
    (hknown : Known (namesAfter [] entries) entries) :
    (s.grouped.filter fun group => ((namesAfter [] entries).lookup group.1).isNone).map
        (fun group => uncoveredFinding group.1 group.2) =
      (missingTokens s entries).map fun token => uncoveredFinding token (pathsOf s token) := by
  rw [grouped_eq, List.filter_map, List.map_map, missingTokens]
  congr 1
  refine List.filter_congr fun token ht => ?_
  obtain ⟨o, ho, rfl⟩ := List.mem_map.1 (List.mem_eraseDups.1 ht)
  dsimp only [Function.comp_apply]
  rw [hknown _ (hs o ho), Bool.eq_iff_iff, Option.isNone_iff_eq_none,
    firstNamed?_eq_none_iff, decide_eq_true_iff]

/-- The names met that no placeholder has are those of the entries with a note. -/
theorem notes_eq {path : Path} {s : Scan} {entries : List Json} :
    ((namesAfter [] entries).filter fun n => (s.grouped.lookup n.1).isNone).map
        (fun n => unusedFinding path n.1 n.2) =
      (withPrior [] entries).flatMap fun (prior, entry) =>
        nameNotes path (s.occurrences.map (·.token)) prior entry := by
  rw [namesAfter, List.filter_flatMap, List.map_flatMap]
  refine List.flatMap_congr fun ⟨prior, entry⟩ _ => ?_
  dsimp only [nameGiven, nameNotes]
  cases newName? prior entry with
  | none => rfl
  | some name =>
    rw [Option.filter_some]
    by_cases hn : name ∈ s.occurrences.map (·.token)
    · have hl : ¬ (s.grouped.lookup name).isNone = true := fun hl => lookup_grouped.1 hl hn
      simp [hl, hn]
    · have hl := lookup_grouped.2 hn
      simp [hl, hn]

theorem filledMerge_eq {path : Path} {entries : List Json} {s : Scan}
    (hs : ∀ o ∈ s.occurrences, o.token ≠ "") :
    filledMerge path entries s.grouped =
      ((withPrior [] entries).flatMap fun (prior, entry) =>
          entryReport (path.index prior.length) prior entry)
        ++ (missingTokens s entries).map (fun token => uncoveredFinding token (pathsOf s token))
        ++ (withPrior [] entries).flatMap fun (prior, entry) =>
          nameNotes path (s.occurrences.map (·.token)) prior entry := by
  obtain ⟨hrun, hknown⟩ := entriesFindings_eq path known_nil entries
  rw [List.length_nil, List.nil_append] at hrun
  rw [List.nil_append, List.nil_append] at hknown
  unfold filledMerge
  rw [hrun]
  exact congrArg₂ (· ++ ·) (congrArg (_ ++ ·) (missingTokens_eq hs hknown)) notes_eq

theorem missingTokens_eq_nil_iff {s : Scan} {entries : List Json} :
    missingTokens s entries = [] ↔
      ∀ o ∈ s.occurrences, ∃ entry ∈ entries, IsNamed entry o.token := by
  simp [missingTokens, List.filter_eq_nil_iff]

theorem nameNotes_clean {path : Path} {tokens : List String} {before : List Json} {entry : Json} :
    ∀ f ∈ nameNotes path tokens before entry, f.isError = false := by
  intro f hf
  obtain ⟨name, -, rfl⟩ := List.mem_map.1 hf
  rfl

/-- Entries give no error exactly when they are complete and name every placeholder. -/
theorem filledMerge_clean_iff {path : Path} {entries : List Json} {s : Scan}
    (hs : ∀ o ∈ s.occurrences, o.token ≠ "") :
    (∀ f ∈ filledMerge path entries s.grouped, f.isError = false) ↔
      (∀ entry ∈ entries, ∃ find replace, IsEntry entry find replace) ∧
        ∀ o ∈ s.occurrences, ∃ entry ∈ entries, IsNamed entry o.token := by
  obtain ⟨hrun, -⟩ := entriesFindings_eq path known_nil entries
  rw [List.length_nil] at hrun
  have hentries := @entriesFindings_clean_iff path [] 0 entries
  rw [hrun] at hentries
  rw [filledMerge_eq hs, List.forall_mem_append, List.forall_mem_append, hentries,
    ← missingTokens_eq_nil_iff]
  constructor
  · rintro ⟨⟨hcomplete, hmissing⟩, -⟩
    refine ⟨hcomplete, List.eq_nil_iff_forall_not_mem.2 fun token ht => ?_⟩
    exact absurd rfl (Finding.not_error_of_mem hmissing (List.mem_map_of_mem ht))
  · rintro ⟨hcomplete, hnone⟩
    refine ⟨⟨hcomplete, by simp [hnone]⟩, fun f hf => ?_⟩
    obtain ⟨⟨prior, entry⟩, -, hf⟩ := List.mem_flatMap.1 hf
    exact nameNotes_clean f hf

theorem coverage_filled {doc : Document} {s : Scan} {entries : List Json} {path : Path}
    (h : doc.merge? = some ⟨.array entries, path⟩) (hne : entries ≠ []) :
    coverage doc s = filledMerge path entries s.grouped := by
  unfold coverage
  rw [h]
  cases entries with
  | nil => exact absurd rfl hne
  | cons => rfl

theorem grouped_eq_nil_iff {s : Scan} : s.grouped = [] ↔ s.occurrences = [] := by
  constructor
  · intro h
    refine List.eq_nil_iff_forall_not_mem.2 fun o ho => ?_
    have hkey := mem_keys_grouped ho
    rw [h] at hkey
    cases hkey
  · intro h
    rw [Scan.grouped, h]
    rfl

theorem absentMerge_clean_iff {groups : List (String × List Path)} :
    (∀ f ∈ absentMerge groups, f.isError = false) ↔ groups = [] := by
  cases groups with
  | nil => simp [absentMerge]
  | cons g rest =>
    exact iff_of_false (fun h => absurd rfl (Finding.not_error_of_mem h List.mem_cons_self))
      (List.cons_ne_nil g rest)

theorem emptyMerge_clean_iff {path : Path} {groups : List (String × List Path)} :
    (∀ f ∈ emptyMerge path groups, f.isError = false) ↔ groups = [] := by
  cases groups with
  | nil => simp [emptyMerge]
  | cons g rest =>
    exact iff_of_false (fun h => absurd rfl (Finding.not_error_of_mem h List.mem_cons_self))
      (List.cons_ne_nil g rest)

/-- The rule finds no error exactly when there is nothing to merge, or the entries are complete and
name every placeholder. -/
theorem coverage_clean_iff {doc : Document} {s : Scan} (hs : ∀ o ∈ s.occurrences, o.token ≠ "") :
    (∀ f ∈ coverage doc s, f.isError = false) ↔
      (s.occurrences = [] ∧ (doc.merge? = none ∨ ∃ path, doc.merge? = some ⟨.array [], path⟩)) ∨
      ∃ entries path, doc.merge? = some ⟨.array entries, path⟩ ∧ entries ≠ [] ∧
        (∀ entry ∈ entries, ∃ find replace, IsEntry entry find replace) ∧
        ∀ o ∈ s.occurrences, ∃ entry ∈ entries, IsNamed entry o.token := by
  rw [← grouped_eq_nil_iff]
  unfold coverage
  split
  · rename_i hm
    simp [hm, absentMerge_clean_iff]
  · rename_i path hm
    simp [hm, emptyMerge_clean_iff]
  · rename_i entries path hnil hm
    have hne : entries ≠ [] := hnil
    simp [hm, filledMerge_clean_iff hs, hne]
  · rename_i value path hempty harray hm
    refine iff_of_false (fun h => absurd rfl (Finding.not_error_of_mem h List.mem_cons_self)) ?_
    rintro (⟨-, hnone | ⟨_, hnil⟩⟩ | ⟨entries, _, hsome, -⟩)
    · rw [hm] at hnone
      cases hnone
    · rw [hm] at hnil
      cases hnil
      exact hempty rfl
    · rw [hm] at hsome
      cases hsome
      exact harray entries rfl

theorem uncoveredFinding_at {s : Scan} {token : String} (h : token ∈ s.occurrences.map (·.token)) :
    (uncoveredFinding token (pathsOf s token)).locations.head? =
      some (uncoveredFinding token (pathsOf s token)).field := by
  obtain ⟨o, ho, rfl⟩ := List.mem_map.1 h
  have hmem : o.path ∈ pathsOf s o.token :=
    List.mem_map_of_mem (List.mem_filter.2 ⟨ho, decide_eq_true rfl⟩)
  show ((pathsOf s o.token).map Path.shown).head? =
    some (((pathsOf s o.token).head?.map Path.shown).getD "")
  cases hp : pathsOf s o.token with
  | nil => simp [hp] at hmem
  | cons p rest => rfl

/-- What a name that is not blank gives: a warning where it stood before, a note where it is new and
no placeholder has it, and else nothing. -/
theorem reports_of_isNamed {before : List Json} {entry : Json} {name : String}
    (h : IsNamed entry name) (hne : name ≠ "") (path : Path) (tokens : List String) :
    match firstNamed? before name with
    | some first =>
      nameWarnings (path.index before.length) before entry =
          [duplicateFinding (path.index before.length) name first] ∧
        nameNotes path tokens before entry = []
    | none =>
      nameWarnings (path.index before.length) before entry = [] ∧
        nameNotes path tokens before entry =
          if name ∈ tokens then [] else [unusedFinding path name before.length] := by
  unfold nameWarnings nameNotes newName?
  rw [h]
  dsimp only
  rw [if_neg hne, Option.filter_some]
  cases hf : firstNamed? before name with
  | some first => simp
  | none => by_cases ht : name ∈ tokens <;> simp [hne, ht]

/-- **The rule about the merge array is exact.** It finds no error exactly when there is nothing to
merge, or the entries are complete and name every placeholder. With entries it reports on them one
by one; then come the placeholders that no entry names, each in one error with all its places; and
then the notes on names that no placeholder has. Of an entry with a name that is not blank, either
the name stood before and there is a warning that tells the first entry with it, or it is new and
there is a note exactly when no placeholder has it. -/
theorem coverage_exact (doc : Document) :
    ((∀ f ∈ coverage doc (scan doc), f.isError = false) ↔
      ((scan doc).occurrences = [] ∧
        (doc.merge? = none ∨ ∃ path, doc.merge? = some ⟨.array [], path⟩)) ∨
      ∃ entries path, doc.merge? = some ⟨.array entries, path⟩ ∧ entries ≠ [] ∧
        (∀ entry ∈ entries, ∃ find replace, IsEntry entry find replace) ∧
        ∀ o ∈ (scan doc).occurrences, ∃ entry ∈ entries, IsNamed entry o.token) ∧
    ∀ entries path, doc.merge? = some ⟨.array entries, path⟩ → entries ≠ [] →
      (coverage doc (scan doc) =
        ((withPrior [] entries).flatMap fun (before, entry) =>
            partFindings (path.index before.length) entry
              ++ nameWarnings (path.index before.length) before entry)
          ++ (missingTokens (scan doc) entries).map
            (fun token => uncoveredFinding token (pathsOf (scan doc) token))
          ++ (withPrior [] entries).flatMap fun (before, entry) =>
            nameNotes path ((scan doc).occurrences.map (·.token)) before entry) ∧
      (∀ token ∈ missingTokens (scan doc) entries,
        let f := uncoveredFinding token (pathsOf (scan doc) token)
        f.isError = true ∧ f.locations = (pathsOf (scan doc) token).map Path.shown ∧
          f.locations.head? = some f.field) ∧
      ∀ before entry after name, entries = before ++ entry :: after → IsNamed entry name →
        name ≠ "" →
        match firstNamed? before name with
        | some first =>
          nameWarnings (path.index before.length) before entry =
              [duplicateFinding (path.index before.length) name first] ∧
            nameNotes path ((scan doc).occurrences.map (·.token)) before entry = []
        | none =>
          nameWarnings (path.index before.length) before entry = [] ∧
            nameNotes path ((scan doc).occurrences.map (·.token)) before entry =
              if name ∈ (scan doc).occurrences.map (·.token) then []
              else [unusedFinding path name before.length] := by
  have hs : ∀ o ∈ (scan doc).occurrences, o.token ≠ "" := fun _ => token_ne_empty
  refine ⟨coverage_clean_iff hs, fun entries path hm hne => ⟨?_, fun token ht => ?_, ?_⟩⟩
  · rw [coverage_filled hm hne]
    exact filledMerge_eq hs
  · have ht := List.mem_eraseDups.1 (List.mem_filter.1 ht).1
    exact ⟨rfl, rfl, uncoveredFinding_at ht⟩
  · exact fun before entry _ name _ hn hname => reports_of_isNamed hn hname path _

/-- Three entries: the second has the name of the first, and no placeholder has the third name. -/
def doubledEntries : List Json :=
  ["clip", " clip ", "other"].map fun find =>
    .object [("find", .string find), ("replace", .string "a.mp4")]

/-- A template with two placeholders, of which the entries name one. -/
def halfCovered : Document :=
  ⟨[("template", .object [("timeline", .array [.string "\x7b\x7bclip\x7d\x7d", .string "\x7b\x7b music \x7d\x7d",
      .string "\x7b\x7bmusic\x7d\x7d"])]),
    ("merge", .array doubledEntries)]⟩

theorem coverage_exact_half :
    halfCovered.merge? = some ⟨.array doubledEntries, Path.root.key "merge"⟩ ∧
      doubledEntries ≠ [] ∧
      (coverage halfCovered (scan halfCovered)).map (fun f => (f.severity, f.field, f.locations)) =
        [(.warning, "merge[1].find", []),
          (.error, "template.timeline[1]", ["template.timeline[1]", "template.timeline[2]"]),
          (.info, "merge[2].find", [])] := by
  have hm : halfCovered.merge? = some ⟨.array doubledEntries, Path.root.key "merge"⟩ := rfl
  have hne : doubledEntries ≠ [] := by decide
  refine ⟨hm, hne, ?_⟩
  rw [((coverage_exact halfCovered).2 _ _ hm hne).1]
  decide +kernel

end VideoScript.Rules
