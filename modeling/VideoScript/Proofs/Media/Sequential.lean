import VideoScript.Disk.Tree
import VideoScript.Proofs.Media.Lookup

/-!
# One media file after the other

`sequentialFindings` says what the findings about media files are without any tuning: the distinct
paths are looked up one by one in the order of their first references, the first look-up that the
disk fails ends everything, and each path that is not found gives one finding. Whatever the settings
and whatever the order in which look-ups finish, the findings are these
(`fileFindings_eq_sequential`), and they fail when a look-up does (`fileFindings_error_iff_probe`).
-/

set_option autoImplicit false

namespace VideoScript.Media

open Json Disk

/-- The distinct paths of references, in the order of their first references. -/
def distinctPaths (refs : List Reference) : List String := (refs.map (·.raw)).eraseDups

/-- Where references to a path stand, in order. -/
def locationsOf (refs : List Reference) (raw : String) : List Path :=
  (refs.filter fun r => r.raw = raw).map (·.location)

/-- What is wrong with a place, and the place. -/
def complaint? : Probe → Option (String × String)
  | .found _ => none
  | .missing place => some ("media file not found", place)
  | .denied place => some ("media file not accessible", place)
  | .notFile place => some ("media path is not a file", place)

/-- The finding about a path: it stands at the first location, and lists all of them when there is
more than one. -/
def pathFindings (raw : String) (locations : List Path) (answer : Probe) : List Finding :=
  match complaint? answer, locations with
  | some (words, place), first :: others =>
    [{ severity := .error
       category := .file
       field := first.shown
       message := words ++ ": '" ++ raw ++ "'"
       suggestion := some ("resolved to " ++ place)
       locations := if others = [] then [] else (first :: others).map Path.shown }]
  | _, _ => []

/-- The findings about paths, each looked up once and in turn. -/
def sequentialFindings (look : String → Except ProbeError Probe) (refs : List Reference) :
    List String → Except ProbeError (List Finding)
  | [] => .ok []
  | raw :: rest =>
    match look raw with
    | .error e => .error e
    | .ok answer =>
      (sequentialFindings look refs rest).map (pathFindings raw (locationsOf refs raw) answer ++ ·)

/-! ## The findings about one path -/

theorem toList_probeFinding? {raw : String} {locations : List Path} (h : locations ≠ [])
    (answer : Probe) :
    (probeFinding? raw locations answer).toList = pathFindings raw locations answer := by
  cases locations with
  | nil => exact absurd rfl h
  | cons first others =>
    cases answer with
    | found => rfl
    | _ => cases others <;> rfl

theorem locationsOf_ne_nil {refs : List Reference} {raw : String} (h : raw ∈ distinctPaths refs) :
    locationsOf refs raw ≠ [] := by
  obtain ⟨r, hr, rfl⟩ := List.mem_map.1 (List.mem_eraseDups.1 h)
  have hm : r ∈ refs.filter fun r' => r'.raw = r.raw := List.mem_filter.2 ⟨hr, by simp⟩
  exact List.ne_nil_of_mem (List.mem_map_of_mem hm)

/-! ## The findings about all paths -/

/-- Looking up all paths and then reporting them is looking up and reporting each in turn. -/
theorem sequentialFindings_eq_mapM (look : String → Except ProbeError Probe)
    {refs : List Reference} {raws : List String} (h : ∀ raw ∈ raws, locationsOf refs raw ≠ []) :
    sequentialFindings look refs raws = (raws.mapM look).map fun answers =>
      (raws.zip answers).filterMap fun (raw, answer) =>
        probeFinding? raw (locationsOf refs raw) answer := by
  induction raws with
  | nil => rfl
  | cons raw rest ih =>
    obtain ⟨hraw, hrest⟩ := List.forall_mem_cons.1 h
    rw [sequentialFindings, mapM_cons_eq]
    cases look raw with
    | error e => rfl
    | ok answer =>
      dsimp only
      rw [ih hrest, ← toList_probeFinding? hraw]
      cases rest.mapM look with
      | error e => rfl
      | ok answers =>
        cases hf : probeFinding? raw (locationsOf refs raw) answer <;> simp [Except.map, hf]

theorem plainFindings_eq_sequential (disk : Disk) (shelf : Shelf) (refs : List Reference) :
    plainFindings disk shelf refs =
      sequentialFindings (fun raw => probe disk (shelf.candidates raw)) refs
        (distinctPaths refs) := by
  rw [sequentialFindings_eq_mapM _ fun _ => locationsOf_ne_nil]
  unfold plainFindings
  rw [mapM_grouped]
  change probes disk shelf refs >>= _ = (probes disk shelf refs).map _
  cases probes disk shelf refs with
  | error e => rfl
  | ok answers =>
    refine congrArg Except.ok ?_
    rw [grouped_eq, List.zip_map_left, List.filterMap_map]
    rfl

/-! ## Failure -/

theorem sequentialFindings_error_iff {look : String → Except ProbeError Probe}
    {refs : List Reference} {raws : List String} : (∃ e, sequentialFindings look refs raws = .error e) ↔
      ∃ raw ∈ raws, ∃ e, look raw = .error e := by
  induction raws with
  | nil => simp [sequentialFindings]
  | cons raw rest ih =>
    rw [sequentialFindings]
    cases hl : look raw with
    | error e => simp [hl]
    | ok answer =>
      rw [List.exists_mem_cons_iff, ← ih, hl]
      cases sequentialFindings look refs rest <;> simp [Except.map]

/-- The findings fail exactly when the look-up of some reference does. -/
theorem fileFindings_error_iff_probe (schedule : Schedule) (disk : Disk) {settings : CheckSettings}
    {shelf : Shelf} {refs : List Reference} (h : settings.skipFiles = false) :
    (∃ e, fileFindings schedule disk settings shelf refs = .error e) ↔
      ∃ r ∈ refs, ∃ e, probe disk (shelf.candidates r.raw) = .error e := by
  rw [fileFindings_eq _ _ _ _ h, plainFindings_eq_sequential, sequentialFindings_error_iff]
  simp only [distinctPaths, List.mem_eraseDups]
  constructor
  · rintro ⟨raw, hm, he⟩
    obtain ⟨r, hr, rfl⟩ := List.mem_map.1 hm
    exact ⟨r, hr, he⟩
  · rintro ⟨r, hr, he⟩
    exact ⟨r.raw, List.mem_map_of_mem hr, he⟩

/-! ## Whatever the tuning -/

/-- A tree with one file. -/
def hereTree : FileTree :=
  ⟨[(["media"], .directory), (["media", "here.mp4"], .file .empty)], "/"⟩

/-- Two references to a file that is not there, and one to a file that is. -/
def threeReferences : List Reference :=
  [⟨"lost.mp4", Path.root.key "a", none⟩, ⟨"here.mp4", Path.root.key "b", none⟩,
   ⟨"lost.mp4", Path.root.key "c", none⟩]

/-- Settings with which every reference is looked up, all of them at once. -/
def eagerSettings : CheckSettings :=
  { CheckSettings.standard with parallelThreshold := 0, cache := false }

/-- **The findings about media files come out one way.** However many look-ups run at once, in
whatever order they finish, and with a cache or without, the findings are those of looking up the
distinct paths in turn. -/
theorem fileFindings_eq_sequential (schedule : Schedule) (disk : Disk) (settings : CheckSettings)
    (shelf : Shelf) (refs : List Reference) (h : settings.skipFiles = false) :
    fileFindings schedule disk settings shelf refs =
      sequentialFindings (fun raw => probe disk (shelf.candidates raw)) refs
        (distinctPaths refs) := by
  rw [fileFindings_eq schedule disk shelf refs h, plainFindings_eq_sequential]

theorem fileFindings_eq_sequential_reversed :
    let shelf : Shelf := ⟨"/script", some "/media"⟩
    let found := sequentialFindings (fun raw => probe hereTree.disk
      (shelf.candidates raw)) threeReferences (distinctPaths threeReferences)
    eagerSettings.skipFiles = false ∧
      fileFindings ⟨List.reverse, List.reverse_perm⟩ hereTree.disk eagerSettings shelf
        threeReferences = found ∧
      found = .ok [⟨.error, .file, "a", "media file not found: 'lost.mp4'",
        some "resolved to /script/lost.mp4", ["a", "c"]⟩] :=
  ⟨rfl, fileFindings_eq_sequential _ _ _ _ _ rfl, by decide +kernel⟩

end VideoScript.Media
