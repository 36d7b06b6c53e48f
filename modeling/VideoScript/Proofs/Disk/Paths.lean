import VideoScript.Disk.Path
import VideoScript.Proofs.Text.Lines

/-!
# Paths and their parts

The parts of a path are what its start stands for (`leadOf`) and what its pieces between slashes
stand for (`partsOf`). A relative path joined to a directory has the parts of the directory before
its own (`components_join`). A part that is a name is never empty, so a path with a file name has a
stem (`fileStem?_ne_nil`). What is left of a path without its last part stands before one of its
slashes (`around_parent`).
-/

set_option autoImplicit false

namespace VideoScript.Disk

open Text

/-! ## Joined paths -/

/-- The parts that the pieces of a text stand for. -/
def partsOf (s : List Char) : List Component := (splitAt '/' s).filterMap pieceComponent?

/-- The part of a path that its start stands for. -/
def leadOf (s : List Char) : List Component :=
  if startsWith ['/'] s then [.root] else if startsHere s then [.current] else []

theorem components_eq (path : String) :
    components path = leadOf path.toList ++ partsOf path.toList := rfl

theorem partsOf_append (s rest : List Char) :
    partsOf (s ++ '/' :: rest) = partsOf s ++ partsOf rest := by
  rw [partsOf, splitAt_append_cons, List.filterMap_append, partsOf, partsOf]

theorem leadOf_append {s : List Char} (hs : s ≠ []) (rest : List Char) :
    leadOf (s ++ '/' :: rest) = leadOf s := by
  match s with
  | [] => exact absurd rfl hs
  | [c] => by_cases hc : c = '.' <;> simp [leadOf, startsWith, startsHere, hc]
  | c :: d :: s => by_cases hc : c = '.' <;> by_cases hd : d = '/' <;>
      simp [leadOf, startsWith, startsHere, hc, hd]

/-- A path with two characters before its first slash has neither a slash nor a single dot at its
start. -/
theorem leadOf_of_two_le {s : List Char} (h : '/' ∉ s) (hlen : 2 ≤ s.length) (rest : List Char) :
    leadOf (s ++ rest) = [] := by
  match s, hlen with
  | c :: d :: s, _ =>
    rw [List.mem_cons, List.mem_cons, not_or, not_or] at h
    obtain ⟨hc, hd, -⟩ := h
    simp [leadOf, startsWith, startsHere, hc, Ne.symm hd]

/-- A slash at the end of a directory is no part of it. -/
theorem leadOf_concat_slash (s : List Char) :
    leadOf (s ++ ['/']) ++ partsOf (s ++ ['/']) =
      (if s = [] then [.root] else leadOf s) ++ partsOf s := by
  have hparts : partsOf (s ++ ['/']) = partsOf s := by
    rw [partsOf_append, show partsOf [] = [] from rfl, List.append_nil]
  rw [hparts]
  by_cases hs : s = []
  · subst hs
    rfl
  · rw [if_neg hs, leadOf_append hs]

/-- The parts of a relative path come after those of its directory. -/
theorem components_join (dir : String) {file : String} (h : leadOf file.toList = []) :
    components (join dir file) = components dir ++ partsOf file.toList := by
  have hrel : isAbsolute file = false := by
    unfold leadOf at h
    unfold isAbsolute
    split at h
    · cases h
    · simp_all
  rw [join, if_neg (by simp [hrel])]
  split
  next hend =>
    rcases Bool.or_eq_true_iff.1 hend with hempty | hslash
    · have hdir : dir = "" := by simpa using hempty
      subst hdir
      rw [String.empty_append, components_eq, h]
      rfl
    · obtain ⟨s, hs⟩ := List.getLast?_eq_some_iff.1 (of_decide_eq_true hslash)
      rw [components_eq, components_eq, String.toList_append, hs, leadOf_concat_slash,
        List.append_assoc, List.singleton_append, partsOf_append]
      by_cases hne : s = []
      · subst hne
        rfl
      · rw [if_neg hne, leadOf_append hne, List.append_assoc]
  next hend =>
    have hne : dir.toList ≠ [] := by
      intro hnil
      simp [String.toList_eq_nil_iff.1 hnil] at hend
    rw [components_eq, components_eq, String.toList_append, String.toList_append,
      show "/".toList = ['/'] from rfl, List.append_assoc, List.singleton_append,
      leadOf_append hne, partsOf_append, List.append_assoc]

/-- A path is that of something in a directory: its parts are those of the directory and one
name. -/
def IsChild (dir path : String) : Prop :=
  ∃ name, components path = components dir ++ [.name name]

/-! ## Names -/

theorem pieceComponent?_eq_name_iff {piece : List Char} {name : String} :
    pieceComponent? piece = some (.name name) ↔
      name.toList = piece ∧ piece ≠ [] ∧ piece ≠ ['.'] ∧ piece ≠ ['.', '.'] := by
  unfold pieceComponent?
  split
  · simp
  · simp
  · simp
  · next h0 h1 h2 =>
    simp only [Option.some.injEq, Component.name.injEq, ← String.toList_inj, String.toList_ofList]
    exact ⟨fun h => ⟨h.symm, h0, h1, h2⟩, fun h => h.1.symm⟩

theorem ne_nil_of_name_mem_components {path name : String} (h : .name name ∈ components path) :
    name.toList ≠ [] := by
  rw [components_eq] at h
  rcases List.mem_append.1 h with h | h
  · unfold leadOf at h
    split at h
    · simp at h
    · split at h <;> simp at h
  · obtain ⟨piece, -, hpiece⟩ := List.mem_filterMap.1 h
    obtain ⟨rfl, hne, -⟩ := pieceComponent?_eq_name_iff.1 hpiece
    exact hne

theorem fileStem?_ne_nil {path stem : String} (h : fileStem? path = some stem) :
    stem.toList ≠ [] := by
  obtain ⟨name, hname, rfl⟩ := Option.map_eq_some_iff.1 h
  have hne : name.toList ≠ [] := by
    unfold fileName? at hname
    split at hname
    · next last hlast =>
      cases hname
      exact ne_nil_of_name_mem_components (List.mem_of_getLast? hlast)
    · cases hname
  rw [String.toList_ofList, splitName]
  split
  · exact hne
  · next hbefore => simpa using hbefore

/-! ## Directories around a path -/

/-- A text names a directory around a path: it is what stands before one of the slashes of the path,
the root, or nothing. -/
def Around (path dir : List Char) : Prop :=
  dir = [] ∨ dir = ['/'] ∨ ∃ rest, path = dir ++ '/' :: rest

theorem Around.trans {a b c : List Char} (hab : Around a b) (hbc : Around b c) : Around a c := by
  rcases hbc with hc | hc | ⟨r, rfl⟩
  · exact .inl hc
  · exact .inr (.inl hc)
  rcases hab with hb | hb | ⟨r', rfl⟩
  · simp at hb
  · -- nothing stands before the slash of the root
    rw [List.append_eq_cons_iff] at hb
    rcases hb with ⟨hc, -⟩ | ⟨s, -, hs⟩
    · exact .inl hc
    · simp at hs
  · exact .inr (.inr ⟨r ++ '/' :: r', by rw [List.append_assoc, List.cons_append]⟩)

theorem startsHere_iff {s : List Char} :
    startsHere s = true ↔ s = ['.'] ∨ ∃ rest, s = '.' :: '/' :: rest := by
  unfold startsHere
  split <;> simp_all

/-- A path that is longer than its lead starts with no lead, with a slash, or with a dot before a
slash. -/
theorem exists_lead {s : List Char} (h : leadLength s < s.length) :
    ∃ lead rest, s = lead ++ rest ∧ leadLength s = lead.length ∧
      (lead = [] ∨ lead = ['/'] ∨ lead = ['.'] ∧ ∃ rest', rest = '/' :: rest') := by
  cases s with
  | nil => cases h
  | cons c rest =>
    by_cases hslash : c = '/'
    · subst hslash
      exact ⟨['/'], rest, rfl, by simp [leadLength, startsWith], .inr (.inl rfl)⟩
    by_cases hdot : startsHere (c :: rest) = true
    · rcases startsHere_iff.1 hdot with hs | ⟨rest', hs⟩
      · rw [hs] at h
        exact absurd h (by decide)
      · refine ⟨['.'], '/' :: rest', hs, ?_, .inr (.inr ⟨rfl, rest', rfl⟩)⟩
        rw [hs]
        rfl
    · refine ⟨[], c :: rest, rfl, ?_, .inl rfl⟩
      simp [leadLength, startsWith, hdot, Ne.symm hslash]

/-- The piece after the last slash of a text. -/
theorem eq_or_exists_slash (s : List Char) {piece : List Char}
    (h : piece = (s.reverse.takeWhile (· ≠ '/')).reverse) :
    s = piece ∨ ∃ before, s = before ++ '/' :: piece := by
  subst h
  have hs := (List.takeWhile_append_dropWhile (p := (· ≠ '/')) (l := s.reverse))
  cases hd : s.reverse.dropWhile (· ≠ '/') with
  | nil =>
    rw [hd, List.append_nil] at hs
    exact .inl (by rw [hs, List.reverse_reverse])
  | cons c d =>
    have hc : c = '/' := by
      have hhead := List.head?_dropWhile_not (· ≠ '/') s.reverse
      rw [hd] at hhead
      simpa using hhead
    refine .inr ⟨d.reverse, ?_⟩
    rw [hd, hc] at hs
    have hrev := congrArg List.reverse hs
    simpa using hrev.symm

theorem around_lastPiece {s : List Char} (h : leadLength s < s.length) :
    Around s (lastPiece s).1 := by
  obtain ⟨lead, rest, hs, hlen, hlead⟩ := exists_lead h
  obtain ⟨piece, hpiece⟩ : ∃ piece, piece = (rest.reverse.takeWhile (· ≠ '/')).reverse := ⟨_, rfl⟩
  have hlast : (lastPiece s).1 =
      let before := s.take (s.length - piece.length)
      if lead.length < before.length then before.dropLast else before := by
    rw [lastPiece, hlen]
    simp only [hs, List.drop_left, ← hpiece]
  rw [hlast]
  rcases eq_or_exists_slash rest hpiece with hrest | ⟨before, hrest⟩
  · -- no slash after the lead: what is left is the lead
    have hleft : s.take (s.length - piece.length) = lead := by
      rw [hs, hrest, List.length_append, Nat.add_sub_cancel, List.take_left]
    rw [hleft]
    simp only [Nat.lt_irrefl, if_false]
    rcases hlead with rfl | rfl | ⟨rfl, rest', rfl⟩
    · exact .inl rfl
    · exact .inr (.inl rfl)
    · -- a piece has no slash
      exact .inr (.inr ⟨rest', hs⟩)
  · have hleft : s.take (s.length - piece.length) = lead ++ before ++ ['/'] := by
      have hsplit : s = (lead ++ before ++ ['/']) ++ piece := by simp [hs, hrest]
      rw [hsplit, List.length_append, Nat.add_sub_cancel, List.take_left]
    rw [hleft]
    simp only [List.dropLast_concat]
    rw [if_pos (by simp)]
    exact .inr (.inr ⟨piece, by simp [hs, hrest]⟩)

theorem around_trimPieces {s : List Char} (fuel : Nat) :
    trimPieces s fuel = s ∨ Around s (trimPieces s fuel) := by
  induction fuel generalizing s with
  | zero => exact .inl rfl
  | succ fuel ih =>
    rw [trimPieces]
    split
    next hlead =>
      dsimp only
      split
      · rcases ih (s := (lastPiece s).1) with h | h
        · rw [h]
          exact .inr (around_lastPiece hlead)
        · exact .inr ((around_lastPiece hlead).trans h)
      · exact .inl rfl
    next => exact .inl rfl

/-- The path without its last component names a directory around it. -/
theorem around_parent {path dir : String} (h : parent? path = some dir) :
    Around path.toList dir.toList := by
  unfold parent? at h
  dsimp only at h
  obtain ⟨s, hs⟩ : ∃ s, trimPieces path.toList path.length = s := ⟨_, rfl⟩
  rw [hs] at h
  have hpath : s = path.toList ∨ Around path.toList s := hs ▸ around_trimPieces path.length
  split at h
  next hlead =>
    cases h
    rw [String.toList_ofList]
    have hlast : Around path.toList (lastPiece s).1 := by
      rcases hpath with rfl | hpath
      · exact around_lastPiece hlead
      · exact hpath.trans (around_lastPiece hlead)
    rcases around_trimPieces (s := (lastPiece s).1) (lastPiece s).1.length with htrim | htrim
    · rwa [htrim]
    · exact hlast.trans htrim
  next =>
    split at h <;> cases h
    exact .inl rfl

/-- What stands in a path before the slashes at the end of a directory around it. -/
theorem around_strip {path dir : List Char} (h : Around path dir) :
    (dir.reverse.dropWhile (· = '/')).reverse = [] ∨
      ∃ rest, path = (dir.reverse.dropWhile (· = '/')).reverse ++ '/' :: rest := by
  obtain ⟨s, hs⟩ : ∃ s, (dir.reverse.dropWhile (· = '/')).reverse = s := ⟨_, rfl⟩
  obtain ⟨slashes, hall, hdir⟩ :
      ∃ slashes : List Char, slashes.all (· = '/') = true ∧ dir = s ++ slashes := by
    refine ⟨(dir.reverse.takeWhile (· = '/')).reverse, ?_, ?_⟩
    · rw [List.all_reverse]
      exact List.all_takeWhile
    · rw [← hs, ← List.reverse_append, List.takeWhile_append_dropWhile, List.reverse_reverse]
  rw [hs]
  rcases h with rfl | rfl | ⟨rest, rfl⟩
  · exact .inl hs.symm
  · exact .inl hs.symm
  · refine .inr ?_
    cases slashes with
    | nil => exact ⟨rest, by rw [hdir, List.append_nil]⟩
    | cons c slashes =>
      rw [List.all_cons, Bool.and_eq_true] at hall
      obtain rfl : c = '/' := of_decide_eq_true hall.1
      exact ⟨slashes ++ '/' :: rest, by rw [hdir, List.append_assoc, List.cons_append]⟩

end VideoScript.Disk
