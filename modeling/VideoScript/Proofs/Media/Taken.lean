import VideoScript.Proofs.Media.Blocked

/-!
# The file that is checked and the file that is taken

A media path is looked up at the same places twice, by different rules. To check it, the first place
with anything in it decides (`probe`); to take its file, the first place where a file stands does
(`Shelf.resolve?`), whatever stands before. So a file that is taken passes its check exactly when it
can be opened and nothing stands at the places before it (`Accessible`, `taken_file_accepted_iff`).
A directory before it is passed over where the file is taken and refused where it is checked
(`taken_behind_directory`).

* `probe_eq_found_iff`: a look-up gets to a file past places without files exactly when nothing
  stands there.
* `fileFindings_eq_nil_iff`: there are no findings exactly when every reference is found.
-/

set_option autoImplicit false

namespace VideoScript.Media

open Json Disk

/-! ## Past places without files -/

section
variable {disk : Disk} {before after : List String} {path : String}

theorem probeAt_of_readable (h : Readable disk path) :
    probeAt disk path = .ok (some (.found path)) := by
  unfold probeAt
  rw [h.1]
  dsimp only
  rw [h.2]

/-- A place without a file leads on exactly when nothing stands there, and never to a file. -/
theorem probeAt_of_no_file {place : String} (h : disk.hasFile place = false) :
    (probeAt disk place = .ok none ∧ disk.kind place = .error .notFound) ∨
      ((∀ found, probeAt disk place ≠ .ok (some (.found found))) ∧ probeAt disk place ≠ .ok none ∧
        disk.kind place ≠ .error .notFound) := by
  unfold hasFile at h
  unfold probeAt
  cases hk : disk.kind place with
  | ok kind => cases kind <;> simp_all
  | error failure => cases failure <;> simp

theorem probe_eq_found_iff (hp : Readable disk path)
    (hb : ∀ place ∈ before, disk.hasFile place = false) :
    probe disk (before ++ path :: after) = .ok (.found path) ↔
      ∀ place ∈ before, disk.kind place = .error .notFound := by
  unfold probe
  generalize (before ++ path :: after).head?.getD "" = first
  induction before with
  | nil => simp [probeFrom, probeAt_of_readable hp]
  | cons place rest ih =>
    obtain ⟨hplace, hrest⟩ := List.forall_mem_cons.1 hb
    rw [List.cons_append, probeFrom, List.forall_mem_cons]
    rcases probeAt_of_no_file hplace with ⟨hnone, hk⟩ | ⟨hfound, hnone, hk⟩
    · rw [hnone]
      simpa [hk] using ih hrest
    · -- whatever stands there decides the look-up, and it is no file
      simp only [hk, false_and, iff_false]
      cases hat : probeAt disk place with
      | error e => simp
      | ok answer =>
        cases answer with
        | none => exact absurd hat hnone
        | some answer =>
          rintro he
          cases he
          exact hfound path hat

end

/-! ## No findings -/

theorem sequentialFindings_eq_nil_iff {look : String → Except ProbeError Probe}
    {refs : List Reference} {raws : List String} (h : ∀ raw ∈ raws, locationsOf refs raw ≠ []) :
    sequentialFindings look refs raws = .ok [] ↔
      ∀ raw ∈ raws, ∃ path, look raw = .ok (.found path) := by
  induction raws with
  | nil => simp [sequentialFindings]
  | cons raw rest ih =>
    obtain ⟨hraw, hrest⟩ := List.forall_mem_cons.1 h
    rw [sequentialFindings, List.forall_mem_cons, ← ih hrest]
    cases look raw with
    | error e => simp
    | ok answer =>
      dsimp only
      rw [← toList_probeFinding? hraw]
      cases answer <;> cases sequentialFindings look refs rest <;>
        simp [probeFinding?, Except.map]

/-- There are no findings exactly when every reference is found. -/
theorem fileFindings_eq_nil_iff (schedule : Schedule) (disk : Disk) {settings : CheckSettings}
    {shelf : Shelf} {refs : List Reference} (hf : settings.skipFiles = false) :
    fileFindings schedule disk settings shelf refs = .ok [] ↔
      ∀ r ∈ refs, ∃ path, probe disk (shelf.candidates r.raw) = .ok (.found path) := by
  rw [fileFindings_eq _ _ _ _ hf, plainFindings_eq_sequential,
    sequentialFindings_eq_nil_iff fun _ => locationsOf_ne_nil]
  simp [distinctPaths]

/-! ## Files that are taken -/

/-- What stands at a place can be opened, and nothing stands at the places before. -/
structure Accessible (tree : FileTree) (places : List String) (path : String) : Prop where
  opens : tree.openAt path = .ok ()
  vacant : ∀ place ∈ places.takeWhile (· ≠ path), tree.find place = .error .notFound

/-- A file can be read when it can be opened. -/
theorem readable_iff_of_hasFile {tree : FileTree} {path : String}
    (h : tree.disk.hasFile path = true) :
    Readable tree.disk path ↔ tree.openAt path = .ok () := by
  unfold hasFile at h
  unfold Readable
  rw [opens_tree]
  refine ⟨And.right, fun hopen => ⟨?_, hopen⟩⟩
  split at h
  · assumption
  · cases h

theorem kind_eq_notFound_iff {tree : FileTree} {place : String} :
    tree.disk.kind place = .error .notFound ↔ tree.find place = .error .notFound := by
  rw [kind_tree]
  cases tree.find place <;> simp [Except.map]

/-- A file is found where it is taken exactly when it is accessible there. -/
theorem probe_of_resolve? {tree : FileTree} {shelf : Shelf} {raw path : String}
    (h : shelf.resolve? tree.disk raw = some path) :
    probe tree.disk (shelf.candidates raw) = .ok (.found path) ↔
      Accessible tree (shelf.candidates raw) path := by
  obtain ⟨hfile, before, after, hplaces, hbefore⟩ := List.find?_eq_some_iff_append.1 h
  have hnot : ∀ place ∈ before, tree.disk.hasFile place = false := by simpa using hbefore
  have hne : ∀ place ∈ before, (decide (place ≠ path)) = true := by
    refine fun place hm => decide_eq_true ?_
    rintro rfl
    rw [hnot place hm] at hfile
    cases hfile
  have hvacant (hread : Readable tree.disk path) :
      probe tree.disk (before ++ path :: after) = .ok (.found path) ↔
        ∀ place ∈ (before ++ path :: after).takeWhile (· ≠ path),
          tree.find place = .error .notFound := by
    rw [probe_eq_found_iff hread hnot, List.takeWhile_append_of_pos hne]
    simp [kind_eq_notFound_iff]
  rw [hplaces]
  constructor
  · intro hfound
    obtain ⟨_, _, -, -, hread⟩ := split_of_found hfound
    exact ⟨hread.2, (hvacant hread).1 hfound⟩
  · intro h
    exact (hvacant ((readable_iff_of_hasFile hfile).2 h.opens)).2 h.vacant

/-- A tree with a directory and a file of one name in two places. -/
def twinTree : FileTree :=
  ⟨[(["clip"], .directory), (["media"], .directory), (["media", "clip"], .file .empty),
    (["media", "tune"], .file .empty)], "/"⟩

/-- The places of `twinTree`. -/
def twinShelf : Shelf := ⟨"/", some "/media"⟩

/-- A reference to a media path. -/
def referenceTo (raw : String) : Reference := ⟨raw, Path.root.key "src", none⟩

/-- **A file that is taken passes its check exactly when nothing stands before it.** When the file
of a media path is taken from a place, it is found at that place, and references to the path give no
finding and no error, exactly when it can be opened and nothing stands at the places before. -/
theorem taken_file_accepted_iff (schedule : Schedule) (tree : FileTree) (settings : CheckSettings)
    (shelf : Shelf) (raw path : String) (hf : settings.skipFiles = false)
    (h : shelf.resolve? tree.disk raw = some path) :
    (probe tree.disk (shelf.candidates raw) = .ok (.found path) ↔
      Accessible tree (shelf.candidates raw) path) ∧
    ∀ refs : List Reference, refs ≠ [] → (∀ r ∈ refs, r.raw = raw) →
      (fileFindings schedule tree.disk settings shelf refs = .ok [] ↔
        Accessible tree (shelf.candidates raw) path) := by
  refine ⟨probe_of_resolve? h, fun refs hne hraw => ?_⟩
  rw [fileFindings_eq_nil_iff schedule _ hf, ← probe_of_resolve? h]
  constructor
  · intro hfound
    obtain ⟨r, hr⟩ := List.exists_mem_of_ne_nil refs hne
    obtain ⟨path', hp⟩ := hfound r hr
    rw [hraw r hr] at hp
    have heq : path' = path := by
      have := resolve?_of_found hp
      rw [h] at this
      exact (Option.some.inj this).symm
    exact heq ▸ hp
  · intro hp r hr
    exact ⟨path, (hraw r hr).symm ▸ hp⟩

theorem taken_file_accepted_iff_tune :
    CheckSettings.standard.skipFiles = false ∧
      twinShelf.resolve? twinTree.disk "tune" = some "/media/tune" ∧
      fileFindings .inOrder twinTree.disk .standard twinShelf [referenceTo "tune"] = .ok [] := by
  have htaken : twinShelf.resolve? twinTree.disk "tune" = some "/media/tune" := by decide +kernel
  have h := taken_file_accepted_iff .inOrder twinTree .standard twinShelf "tune" "/media/tune" rfl
    htaken
  have haccessible : Accessible twinTree (twinShelf.candidates "tune") "/media/tune" :=
    ⟨rfl, by decide +kernel⟩
  exact ⟨rfl, htaken, (h.2 [referenceTo "tune"] (by simp) (by simp [referenceTo])).2 haccessible⟩

/-- A file that stands behind a directory is taken, and its check refuses the directory. -/
theorem taken_behind_directory :
    CheckSettings.standard.skipFiles = false ∧
      twinShelf.resolve? twinTree.disk "clip" = some "/media/clip" ∧
      probe twinTree.disk (twinShelf.candidates "clip") = .ok (.notFile "/clip") ∧
      fileFindings .inOrder twinTree.disk .standard twinShelf [referenceTo "clip"] =
        .ok [⟨.error, .file, "src", "media path is not a file: 'clip'",
          some "resolved to /clip", []⟩] :=
  ⟨rfl, by decide +kernel, by decide +kernel, by decide +kernel⟩

end VideoScript.Media
