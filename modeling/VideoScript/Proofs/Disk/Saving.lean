import VideoScript.Proofs.Disk.Paths
import VideoScript.Proofs.Disk.Walk
import VideoScript.Proofs.Lists

/-!
# What saving a file changes

Room is made for a file by making the directories around it that are not there, and then the file
is written. `Saved` says what has become of a tree after that: the file holds its content, each
directory that is new stands on the way to the file, and all else is as it was.

Two facts carry this. What stands before a slash of a path leads to a place on the way to where the
path leads (`onTheWay_of_place`), so all directories that are tried are on the way. And a walk looks
only at directories, so it ends at the same place in any tree that keeps those of the first
(`follow_mono`): what was on the way stays there while the tree grows.
-/

set_option autoImplicit false

namespace VideoScript.FileTree

open Disk Text

variable {tree tree' : FileTree} {here there : List String} {path dir : String}

/-! ## Places of a tree -/

theorem entry?_of_ne_nil {names : List String} (h : names ≠ []) :
    tree.entry? names = tree.entries.lookup names := by
  unfold entry?
  rw [if_neg (by simpa using h)]

theorem lookup_filter_ne {names : List String} (h : names ≠ there)
    (entries : List (List String × Entry)) :
    (entries.filter fun (place, _) => place ≠ there).lookup names = entries.lookup names := by
  induction entries with
  | nil => rfl
  | cons e rest ih =>
    obtain ⟨place, entry⟩ := e
    by_cases hp : place = there
    · rw [List.filter_cons_of_neg (by simpa using hp), ih, List.lookup_cons,
        beq_false_of_ne (hp ▸ h)]
    · rw [List.filter_cons_of_pos (by simpa using hp), List.lookup_cons, List.lookup_cons, ih]

theorem entry?_put_self (h : there ≠ []) (entry : Entry) :
    entry? (tree.put there entry) there = some entry := by
  rw [entry?_of_ne_nil h, put, List.lookup_cons, beq_self_eq_true]

theorem entry?_put_of_ne {names : List String} (h : names ≠ there) (entry : Entry) :
    entry? (tree.put there entry) names = tree.entry? names := by
  by_cases hnil : names = []
  · subst hnil
    rfl
  · rw [entry?_of_ne_nil hnil, entry?_of_ne_nil hnil, put, List.lookup_cons, beq_false_of_ne h]
    exact lookup_filter_ne h tree.entries

theorem directory_of_next {piece : String} (h : tree.next here piece = .ok there) :
    tree.entry? here = some .directory := by
  unfold next at h
  split at h
  · cases h
  · cases h
  · cases h
  · cases h
  · assumption

theorem follow_append (tree : FileTree) (here : List String) (xs ys : List String) :
    tree.follow here (xs ++ ys) = tree.follow here xs >>= fun there => tree.follow there ys := by
  induction xs generalizing here with
  | nil => rfl
  | cons x xs ih =>
    rw [List.cons_append, follow, follow]
    cases hn : tree.next here x with
    | error e => rfl
    | ok there => exact ih there

theorem follow_dropLast {pieces : List String} (h : pieces ≠ []) :
    tree.follow here pieces = tree.follow here pieces.dropLast >>= fun there =>
      tree.next there (pieces.getLast?.getD "") := by
  have hlast : pieces.getLast?.getD "" = pieces.getLast h := by
    rw [List.getLast?_eq_some_getLast h]
    rfl
  rw [hlast]
  nth_rewrite 1 [← List.dropLast_append_getLast h]
  rw [follow_append]
  refine congrArg _ (funext fun there => ?_)
  rw [follow]
  cases tree.next there (pieces.getLast h) <;> rfl

/-- The directories of a tree are directories of another. -/
def KeepsDirectories (tree tree' : FileTree) : Prop :=
  ∀ names, tree.entry? names = some .directory → tree'.entry? names = some .directory

theorem next_mono {piece : String} (hk : KeepsDirectories tree tree')
    (h : tree.next here piece = .ok there) : tree'.next here piece = .ok there := by
  have hdir := directory_of_next h
  unfold next at h ⊢
  rw [hdir] at h
  rw [hk here hdir]
  exact h

/-- A walk looks only at directories. -/
theorem follow_mono {pieces : List String} (hk : KeepsDirectories tree tree')
    (h : tree.follow here pieces = .ok there) : tree'.follow here pieces = .ok there := by
  induction pieces generalizing here with
  | nil => exact h
  | cons piece rest ih =>
    rw [follow] at h ⊢
    cases hn : tree.next here piece with
    | error e =>
      rw [hn] at h
      cases h
    | ok next =>
      rw [hn] at h
      rw [next_mono hk hn]
      exact ih h

theorem KeepsDirectories.put (h : tree.entry? there ≠ some .directory) (entry : Entry) :
    KeepsDirectories tree (tree.put there entry) := by
  intro names hdir
  have hne : names ≠ there := fun he => h (he ▸ hdir)
  rw [entry?_put_of_ne hne, hdir]

/-! ## The way along a path -/

/-- The pieces of a path between its slashes. -/
def pieces (path : String) : List String := (splitAt '/' path.toList).map .ofList

/-- A place is on the way along a path: some of its pieces lead there, and more pieces follow. -/
def OnTheWay (tree : FileTree) (path : String) (names : List String) : Prop :=
  ∃ before after, pieces path = before ++ after ∧ after ≠ [] ∧
    tree.follow (tree.origin path) before = .ok names

theorem follow_of_place (h : tree.place path = .ok there) :
    path ≠ "" ∧ tree.follow (tree.origin path) (pieces path) = .ok there := by
  unfold place at h
  split at h
  · cases h
  split at h
  · cases h
  rename_i hempty
  split at h
  · cases h
  · exact ⟨by simpa using hempty, h⟩

theorem place_mono (hk : KeepsDirectories tree tree')
    (hw : tree'.workingDirectory = tree.workingDirectory) (h : tree.place path = .ok there) :
    tree'.place path = .ok there := by
  unfold place at h ⊢
  rw [hw]
  -- what `place` refuses it refuses by the path alone
  iterate 3
    split at h
    · cases h
    rw [if_neg ‹_›]
  exact follow_mono hk h

theorem OnTheWay.mono {names : List String} (hk : KeepsDirectories tree tree')
    (hw : tree'.workingDirectory = tree.workingDirectory) (h : tree.OnTheWay path names) :
    tree'.OnTheWay path names := by
  obtain ⟨before, after, hp, hne, hf⟩ := h
  refine ⟨before, after, hp, hne, ?_⟩
  rw [origin, hw]
  exact follow_mono hk hf

/-- What stands before a slash of a path leads to a place on the way along it. -/
theorem onTheWay_of_place {rest : List Char} (h : tree.place dir = .ok there)
    (hpath : path.toList = dir.toList ++ '/' :: rest) : tree.OnTheWay path there := by
  obtain ⟨hne, hf⟩ := follow_of_place h
  have horigin : tree.origin path = tree.origin dir := by
    have hlist : dir.toList ≠ [] := mt String.toList_eq_nil_iff.1 hne
    obtain ⟨c, s, hs⟩ := List.exists_cons_of_ne_nil hlist
    have habs : isAbsolute path = isAbsolute dir := by
      simp [isAbsolute, hpath, hs, startsWith, List.isPrefixOf]
    rw [origin, origin, habs]
  refine ⟨pieces dir, (splitAt '/' rest).map .ofList, ?_, ?_, horigin ▸ hf⟩
  · rw [pieces, hpath, splitAt_append_cons, List.map_append]
    rfl
  · simpa using splitAt_ne_nil '/' rest

/-! ## Making room -/

/-- A place is as it was, or it was empty and is a directory on the way along a path. -/
def KeptOrMade (path : String) (before after : FileTree) (names : List String) : Prop :=
  after.entry? names = before.entry? names ∨
    before.entry? names = none ∧ after.entry? names = some .directory ∧ after.OnTheWay path names

/-- A tree got directories on the way along a path, where nothing stood, and nothing else. -/
structure Grows (path : String) (before after : FileTree) : Prop where
  workingDirectory : after.workingDirectory = before.workingDirectory
  entry : ∀ names, KeptOrMade path before after names

theorem Grows.refl (path : String) (tree : FileTree) : Grows path tree tree :=
  ⟨rfl, fun _ => .inl rfl⟩

theorem Grows.keepsDirectories (h : Grows path tree tree') : KeepsDirectories tree tree' := by
  intro names hdir
  rcases h.entry names with he | ⟨hnone, -⟩
  · rw [he, hdir]
  · rw [hdir] at hnone
    cases hnone

theorem Grows.trans {a b c : FileTree} (hab : Grows path a b) (hbc : Grows path b c) :
    Grows path a c where
  workingDirectory := hbc.workingDirectory.trans hab.workingDirectory
  entry names := by
    rcases hbc.entry names with hc | ⟨hb, hc⟩
    · rcases hab.entry names with hb | ⟨ha, hb, hway⟩
      · exact .inl (hc.trans hb)
      · exact .inr ⟨ha, hc.trans hb, hway.mono hbc.keepsDirectories hbc.workingDirectory⟩
    · rcases hab.entry names with ha | ⟨-, hdir, -⟩
      · exact .inr ⟨ha.symm.trans hb, hc⟩
      · rw [hdir] at hb
        cases hb

theorem grows_put {names : List String} (hnone : tree.entry? names = none)
    (hway : tree.OnTheWay path names) : Grows path tree (tree.put names .directory) where
  workingDirectory := rfl
  entry other := by
    have hne : names ≠ [] := by
      rintro rfl
      cases hnone
    by_cases h : other = names
    · subst h
      exact .inr ⟨hnone, entry?_put_self hne _, hway.mono (.put (by simp [hnone]) _) rfl⟩
    · exact .inl (entry?_put_of_ne h _)

theorem put_of_makeDirectory (h : tree.makeDirectory dir = .ok tree') :
    let bare := String.ofList (dir.toList.reverse.dropWhile (· = '/')).reverse
    ∃ there, tree.place (if bare.isEmpty then "/" else bare) = .ok there ∧
      tree.entry? there = none ∧ tree' = tree.put there .directory := by
  obtain ⟨there, hplace, h⟩ := bind_eq_ok h
  refine ⟨there, hplace, ?_⟩
  cases he : tree.entry? there with
  | some entry =>
    rw [he] at h
    cases h
  | none =>
    rw [he] at h
    cases h
    exact ⟨rfl, rfl⟩

theorem grows_of_makeDirectory (ha : Around path.toList dir.toList)
    (h : tree.makeDirectory dir = .ok tree') : Grows path tree tree' := by
  obtain ⟨there, hplace, hnone, rfl⟩ := put_of_makeDirectory h
  have hstrip := around_strip ha
  generalize (dir.toList.reverse.dropWhile (· = '/')).reverse = s at hplace hstrip
  refine grows_put hnone ?_
  by_cases hs : s = []
  · -- the root is there already
    subst hs
    have hroot : tree.follow [] ["", ""] = .ok there := (follow_of_place hplace).2
    cases hroot
    cases hnone
  · obtain ⟨rest, hpath⟩ := hstrip.resolve_left hs
    rw [if_neg (by simpa using hs)] at hplace
    exact onTheWay_of_place hplace (by rw [String.toList_ofList, hpath])

theorem grows_of_ensureDirectory (ha : Around path.toList dir.toList)
    (h : tree.ensureDirectory dir = .ok tree') : Grows path tree tree' := by
  unfold ensureDirectory at h
  split at h
  next made =>
    cases h
    exact grows_of_makeDirectory ha made
  next =>
    split at h <;> cases h
    exact .refl path tree

theorem grows_of_go {fuel : Nat} (ha : Around path.toList dir.toList)
    (h : makeDirectories.go tree dir fuel = .ok tree') : Grows path tree tree' := by
  induction fuel generalizing dir tree' with
  | zero =>
    rw [makeDirectories.go] at h
    split at h
    · cases h
      exact .refl path tree
    · exact grows_of_ensureDirectory ha h
  | succ fuel ih =>
    rw [makeDirectories.go] at h
    split at h
    · cases h
      exact .refl path tree
    split at h
    next made =>
      cases h
      exact grows_of_makeDirectory ha made
    next =>
      split at h
      next parent hparent =>
        obtain ⟨room, hroom, h⟩ := bind_eq_ok h
        exact (ih (ha.trans (around_parent hparent)) hroom).trans (grows_of_ensureDirectory ha h)
      next => cases h
    next =>
      split at h <;> cases h
      exact .refl path tree

/-- Making the directory that a file is to stand in makes directories on the way to the file. -/
theorem grows_of_makeDirectories (hparent : parent? path = some dir)
    (h : tree.makeDirectories dir = .ok tree') : Grows path tree tree' :=
  grows_of_go (around_parent hparent) h

/-! ## Saving -/

theorem put_of_storeFile {content : ByteArray} (h : tree.storeFile path content = .ok tree') :
    ∃ there, tree.place path = .ok there ∧ tree.entry? there ≠ some .directory ∧
      tree' = tree.put there (.file content) := by
  unfold storeFile at h
  split at h
  · cases h
  rename_i hnul
  split at h
  · cases h
  rename_i hempty
  split at h
  · cases h
  rename_i hlong
  obtain ⟨here, hhere, h⟩ := bind_eq_ok h
  obtain ⟨there, hthere, h⟩ := bind_eq_ok h
  refine ⟨there, ?_, ?_⟩
  · have hne : pieces path ≠ [] := by simpa [pieces] using splitAt_ne_nil '/' path.toList
    rw [place, if_neg hnul, if_neg hempty, if_neg hlong]
    change tree.follow (tree.origin path) (pieces path) = _
    rw [follow_dropLast hne]
    change tree.follow (tree.origin path) (pieces path).dropLast = .ok here at hhere
    rw [hhere]
    exact hthere
  · dsimp only at h
    split at h
    · cases h
    · cases he : tree.entry? there with
      | none =>
        rw [he] at h
        cases h
        exact ⟨nofun, rfl⟩
      | some entry =>
        rw [he] at h
        cases entry with
        | directory => cases h
        | closed kind => cases kind <;> cases h
        | file old =>
          cases h
          exact ⟨nofun, rfl⟩

/-- What became of a tree when a file was saved at a path: the file holds the content, and all else
is as it was but for directories on the way to it that were missing. -/
structure Saved (before after : FileTree) (path : String) (content : ByteArray) : Prop where
  workingDirectory : after.workingDirectory = before.workingDirectory
  read : after.disk.read path = .ok content
  others : ∃ file, after.place path = .ok file ∧ before.entry? file ≠ some .directory ∧
    ∀ names, names ≠ file → KeptOrMade path before after names

theorem saved_of_storeFile {before room after : FileTree} {content : ByteArray}
    (hroom : Grows path before room) (h : room.storeFile path content = .ok after) :
    Saved before after path content := by
  obtain ⟨file, hplace, hfile, rfl⟩ := put_of_storeFile h
  have hkeeps : KeepsDirectories room (room.put file (.file content)) := .put hfile _
  have hplaced : (room.put file (.file content)).place path = .ok file :=
    place_mono hkeeps rfl hplace
  refine ⟨hroom.workingDirectory, ?_, file, hplaced, ?_, ?_⟩
  · have hne : file ≠ [] := by
      rintro rfl
      exact hfile rfl
    change FileTree.fileAt _ path = _
    rw [fileAt, find_of_place hplaced, entry?_put_self hne]
    rfl
  · exact fun hdir => hfile (hroom.keepsDirectories file hdir)
  · intro names hne
    rw [KeptOrMade, entry?_put_of_ne hne]
    rcases hroom.entry names with he | ⟨hnone, hdir, hway⟩
    · exact .inl he
    · exact .inr ⟨hnone, hdir, hway.mono hkeeps rfl⟩

end VideoScript.FileTree
