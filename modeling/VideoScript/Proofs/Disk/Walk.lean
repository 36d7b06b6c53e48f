import VideoScript.Disk.Tree

/-!
# The walk along a path

A path is walked one piece at a time, and each piece needs a directory to stand in. The walk ends at
a place; something stands there or nothing does. It does not end where it is `Stuck`: the piece
before leads to no directory, or the piece is too long for a name. A path that holds a NUL or is too
long as a whole is not walked at all. `Blocked` gathers these cases, and a look at a path fails for
another reason than that nothing stands there, or that the way is closed, exactly when it is blocked
(`find_of_blocked`, `find_of_not_blocked`).
-/

set_option autoImplicit false

namespace VideoScript.FileTree

open Disk Text

/-- A piece of a path cannot be followed from a place. -/
inductive Stuck (tree : FileTree) (here : List String) (piece : String) : Prop where
  | file {entry : Entry} : tree.entry? here = some entry → entry.kind ≠ .directory →
      Stuck tree here piece
  | name : tree.entry? here = some .directory → 255 < piece.utf8ByteSize → Stuck tree here piece

/-- The walk along pieces of a path from a place is stuck at one of them. -/
inductive StuckAlong (tree : FileTree) : List String → List String → Prop where
  | here {here : List String} {piece : String} {rest : List String} :
      Stuck tree here piece → StuckAlong tree here (piece :: rest)
  | later {here there : List String} {piece : String} {rest : List String} :
      tree.next here piece = .ok there → StuckAlong tree there rest →
        StuckAlong tree here (piece :: rest)

/-- The place from which a path is walked. -/
def origin (tree : FileTree) (path : String) : List String :=
  if isAbsolute path then [] else namesOf tree.workingDirectory

/-- No place lies at the end of a path, whatever the tree holds there. -/
inductive Blocked (tree : FileTree) (path : String) : Prop where
  | nul : '\x00' ∈ path.toList → Blocked tree path
  | long : 4096 ≤ path.utf8ByteSize → Blocked tree path
  | stuck : path ≠ "" →
      StuckAlong tree (tree.origin path) ((splitAt '/' path.toList).map .ofList) →
        Blocked tree path

/-- The failures of walks that are blocked. -/
inductive Blocks : Failure → Prop where
  | nul : Blocks .nulInName
  | long : Blocks .nameTooLong
  | file : Blocks .notDirectory

/-- The failures of walks that are not blocked: nothing stands there, or the way is closed. -/
inductive Ends : Failure → Prop where
  | nothing : Ends .notFound
  | closed : Ends .denied

variable {tree : FileTree} {here : List String} {piece path : String}

/-! ## One piece -/

theorem next_of_stuck (h : tree.Stuck here piece) :
    ∃ failure, Blocks failure ∧ tree.next here piece = .error failure := by
  cases h with
  | @file entry he hkind =>
    refine ⟨.notDirectory, .file, ?_⟩
    rw [next, he]
    cases entry with
    | file content => rfl
    | directory => exact absurd rfl hkind
    | closed kind =>
      cases kind with
      | directory => exact absurd rfl hkind
      | file | other => rfl
  | name he hlong =>
    -- the pieces that stay and the one that goes up are short
    have hplain : piece ≠ "" ∧ piece ≠ "." ∧ piece ≠ ".." := by
      refine ⟨?_, ?_, ?_⟩ <;> rintro rfl <;> exact absurd hlong (by decide)
    refine ⟨.nameTooLong, .long, ?_⟩
    rw [next, he]
    simp [hplain.1, hplain.2.1, hplain.2.2, maxName, hlong]

theorem next_of_not_stuck (h : ¬ tree.Stuck here piece) :
    (∃ there, tree.next here piece = .ok there) ∨
      ∃ failure, Ends failure ∧ tree.next here piece = .error failure := by
  unfold next
  split
  · exact .inr ⟨_, .nothing, rfl⟩
  · exact .inr ⟨_, .closed, rfl⟩
  · rename_i he
    exact absurd (.file he (by simp [Entry.kind])) h
  · rename_i kind hkind he
    exact absurd (.file he hkind) h
  · rename_i he
    have hshort : ¬ maxName < piece.utf8ByteSize := fun hlong => h (.name he hlong)
    rw [if_neg hshort]
    split
    · exact .inl ⟨_, rfl⟩
    · split <;> exact .inl ⟨_, rfl⟩

/-! ## All pieces -/

theorem follow_of_stuck {pieces : List String} (h : tree.StuckAlong here pieces) :
    ∃ failure, Blocks failure ∧ tree.follow here pieces = .error failure := by
  induction h with
  | here hs =>
    obtain ⟨failure, hb, hn⟩ := next_of_stuck hs
    exact ⟨failure, hb, by rw [follow, hn]; rfl⟩
  | later hn _ ih =>
    obtain ⟨failure, hb, hf⟩ := ih
    exact ⟨failure, hb, by rw [follow, hn]; exact hf⟩

theorem follow_of_not_stuck {pieces : List String} (h : ¬ tree.StuckAlong here pieces) :
    (∃ there, tree.follow here pieces = .ok there) ∨
      ∃ failure, Ends failure ∧ tree.follow here pieces = .error failure := by
  induction pieces generalizing here with
  | nil => exact .inl ⟨here, rfl⟩
  | cons piece rest ih =>
    rw [follow]
    rcases next_of_not_stuck fun hs => h (.here hs) with ⟨there, hn⟩ | ⟨failure, hends, hn⟩
    · rw [hn]
      exact ih fun hs => h (.later hn hs)
    · rw [hn]
      exact .inr ⟨failure, hends, rfl⟩

/-! ## Whole paths -/

theorem place_of_blocked (h : tree.Blocked path) :
    ∃ failure, Blocks failure ∧ tree.place path = .error failure := by
  unfold place
  by_cases hnul : path.toList.contains '\x00' = true
  · exact ⟨.nulInName, .nul, if_pos hnul⟩
  rw [if_neg hnul]
  by_cases hempty : path.isEmpty = true
  · have hpath : path = "" := by simpa using hempty
    subst hpath
    cases h with
    | nul hm => exact absurd (List.contains_iff_mem.2 hm) hnul
    | long hl => exact absurd hl (by decide)
    | stuck hne => exact absurd rfl hne
  rw [if_neg hempty]
  by_cases hlong : pathLimit ≤ path.utf8ByteSize
  · exact ⟨.nameTooLong, .long, if_pos hlong⟩
  rw [if_neg hlong]
  cases h with
  | nul hm => exact absurd (List.contains_iff_mem.2 hm) hnul
  | long hl => exact absurd hl hlong
  | stuck _ hs => exact follow_of_stuck hs

theorem place_of_not_blocked (h : ¬ tree.Blocked path) :
    (∃ there, tree.place path = .ok there) ∨
      ∃ failure, Ends failure ∧ tree.place path = .error failure := by
  have hnul : ¬ path.toList.contains '\x00' = true := fun hm =>
    h (.nul (List.contains_iff_mem.1 hm))
  have hlong : ¬ pathLimit ≤ path.utf8ByteSize := fun hl => h (.long hl)
  unfold place
  rw [if_neg hnul, if_neg hlong]
  by_cases hempty : path.isEmpty = true
  · exact .inr ⟨_, .nothing, if_pos hempty⟩
  rw [if_neg hempty]
  exact follow_of_not_stuck fun hs => h (.stuck (by simpa using hempty) hs)

theorem find_of_blocked (h : tree.Blocked path) :
    ∃ failure, Blocks failure ∧ tree.find path = .error failure := by
  obtain ⟨failure, hb, hp⟩ := place_of_blocked h
  exact ⟨failure, hb, by rw [find, hp]; rfl⟩

theorem find_of_place {there : List String} (h : tree.place path = .ok there) :
    tree.find path = match tree.entry? there with
      | some entry => .ok entry
      | none => .error .notFound := by
  unfold find
  rw [h]
  change (match tree.entry? there with
    | some entry => .ok entry
    | none => .error .notFound : Except Failure Entry) = _
  cases tree.entry? there <;> rfl

theorem find_of_not_blocked (h : ¬ tree.Blocked path) :
    (∃ entry, tree.find path = .ok entry) ∨
      ∃ failure, Ends failure ∧ tree.find path = .error failure := by
  rcases place_of_not_blocked h with ⟨there, hp⟩ | ⟨failure, hends, hp⟩
  · rw [find_of_place hp]
    cases tree.entry? there with
    | none => exact .inr ⟨_, .nothing, rfl⟩
    | some entry => exact .inl ⟨entry, rfl⟩
  · exact .inr ⟨failure, hends, by rw [find, hp]; rfl⟩

end VideoScript.FileTree
