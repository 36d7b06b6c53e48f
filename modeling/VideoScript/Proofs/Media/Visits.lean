import VideoScript.Proofs.Media.Taken

/-!
# Which places are looked at

A look-up reaches a place when nothing stands at the places before it (`Reached`,
`mem_visited_iff`). With a cache each distinct path is looked up at most once, and a look-up reaches
no place twice. But the cache goes by the paths as the document writes them, and two paths may lead
to one place: one of them in the directory of the script, the other in that of the media files. So no
place is looked at twice exactly when no two distinct paths meet (`Meet`, `visits_once_iff`), and
`place_visited_twice` is a document in which two do.

What is looked at is what a run with a log writes down (`RunLog`). The log of a look-up is `visited`
(`run_logged`), and that of look-ups in turn `visitedInTurn` (`run_logged_inTurn`); side by side the
look-ups write their places down in any order.
-/

set_option autoImplicit false

namespace VideoScript.Media

open Json Disk

variable {disk : Disk} {shelf : Shelf} {settings : CheckSettings} {refs : List Reference}
  {place raw : String} {places : List String}

/-! ## Look-ups with a log -/

/-- Look-ups that write down the places that they look at. The log stays when one of them fails. -/
abbrev Logged := ExceptT ProbeError (StateM (List String))

/-- Writes a place down and looks at it. -/
def lookAt (disk : Disk) (place : String) : Logged (Option Probe) := do
  modify (· ++ [place])
  MonadExcept.ofExcept (probeAt disk place)

/-- Looks at places in order, as `probeFrom` does. -/
def loggedFrom (disk : Disk) (first : String) : List String → Logged Probe
  | [] => return .missing first
  | place :: rest => do
    match ← lookAt disk place with
    | some answer => return answer
    | none => loggedFrom disk first rest

/-- Looks up a media path at its places, as `probe` does. -/
def logged (disk : Disk) (candidates : List String) : Logged Probe :=
  loggedFrom disk (candidates.head?.getD "") candidates

theorem run_lookAt (log : List String) :
    (lookAt disk place).run.run log = (probeAt disk place, log ++ [place]) := by
  unfold lookAt
  cases probeAt disk place <;> rfl

theorem run_loggedFrom (first : String) (log : List String) :
    (loggedFrom disk first places).run.run log =
      (probeFrom disk first places, log ++ visited disk places) := by
  induction places generalizing log with
  | nil =>
    rw [visited, List.append_nil]
    rfl
  | cons place rest ih =>
    rw [loggedFrom, run_bind, run_lookAt, probeFrom, visited]
    cases probeAt disk place with
    | error e => rfl
    | ok answer =>
      cases answer with
      | some answer => rfl
      | none =>
        dsimp only
        rw [ih, List.append_assoc, List.singleton_append]

/-- A look-up with a log gives what it gives without, and writes down the places that it visits. -/
theorem run_logged (log : List String) :
    (logged disk places).run.run log = (probe disk places, log ++ visited disk places) :=
  run_loggedFrom _ log

/-- Look-ups in turn with a log give what they give without. -/
theorem run_logged_inTurn (jobs : List (List String)) (log : List String) :
    (jobs.mapM (logged disk)).run.run log =
      (probeInTurn disk jobs, log ++ visitedInTurn disk jobs) := by
  unfold probeInTurn
  induction jobs generalizing log with
  | nil =>
    rw [visitedInTurn, List.append_nil]
    rfl
  | cons job rest ih =>
    rw [List.mapM_cons, run_bind, run_logged, mapM_cons_eq, visitedInTurn]
    cases probe disk job with
    | error e => rfl
    | ok answer =>
      dsimp only
      rw [run_bind, ih, List.append_assoc]
      cases rest.mapM (probe disk) <;> rfl

/-- What a run may write down. In turn a look-up starts from the log of the one before; side by side
each has its own places, and they are written down in any order. -/
inductive RunLog (disk : Disk) (settings : CheckSettings) (shelf : Shelf) (refs : List Reference) :
    List String → Prop
  | nothing (h : (settings.skipFiles || refs.isEmpty) = true) : RunLog disk settings shelf refs []
  | inTurn (h : (settings.skipFiles || refs.isEmpty) = false)
      (hp : (grouped refs).length < settings.parallelThreshold) :
      RunLog disk settings shelf refs
        (((jobs settings shelf refs).mapM (logged disk)).run.run []).2
  | together {log : List String} (h : (settings.skipFiles || refs.isEmpty) = false)
      (hp : settings.parallelThreshold ≤ (grouped refs).length)
      (hl : log.Perm
        ((jobs settings shelf refs).flatMap fun job => ((logged disk job).run.run []).2)) :
      RunLog disk settings shelf refs log

theorem RunLog.perm {log : List String} (h : RunLog disk settings shelf refs log) :
    log.Perm (visitedPlaces disk settings shelf refs) := by
  unfold visitedPlaces
  cases h with
  | nothing h => rw [if_pos h]
  | inTurn h hp =>
    rw [if_neg (by simp [h]), if_neg (Nat.not_le.2 hp), run_logged_inTurn, List.nil_append]
  | together h hp hl =>
    simp only [run_logged, List.nil_append] at hl
    rwa [if_neg (by simp [h]), if_pos hp]

theorem runLog_visitedPlaces :
    RunLog disk settings shelf refs (visitedPlaces disk settings shelf refs) := by
  unfold visitedPlaces
  split
  · rename_i h
    exact .nothing h
  · rename_i h
    rw [Bool.not_eq_true] at h
    dsimp only
    split
    · rename_i hp
      exact .together h hp (by simp [run_logged])
    · rename_i hp
      have hlog : RunLog disk settings shelf refs _ := .inTurn h (Nat.not_le.1 hp)
      rwa [run_logged_inTurn, List.nil_append] at hlog

/-! ## The places of one look-up -/

/-- A look-up at some places gets to one of them: nothing stands at those before it. -/
def Reached (disk : Disk) (places : List String) (place : String) : Prop :=
  ∃ before after, places = before ++ place :: after ∧
    ∀ earlier ∈ before, disk.kind earlier = .error .notFound

theorem probeAt_eq_none_iff :
    probeAt disk place = .ok none ↔ disk.kind place = .error .notFound := by
  refine ⟨kind_of_probeAt, fun h => ?_⟩
  rw [probeAt, h]

theorem visited_cons (rest : List String) : visited disk (place :: rest) =
    place :: if disk.kind place = .error .notFound then visited disk rest else [] := by
  rw [visited]
  split
  · rename_i h
    rw [if_pos (probeAt_eq_none_iff.1 h)]
  · rename_i h
    rw [if_neg fun hk => h (probeAt_eq_none_iff.2 hk)]

theorem mem_visited_iff : place ∈ visited disk places ↔ Reached disk places place := by
  induction places with
  | nil => simp [visited, Reached]
  | cons first rest ih =>
    rw [visited_cons, List.mem_cons]
    constructor
    · rintro (rfl | h)
      · exact ⟨[], rest, rfl, by simp⟩
      · split at h
        · rename_i hk
          obtain ⟨before, after, rfl, hb⟩ := ih.1 h
          exact ⟨first :: before, after, rfl, List.forall_mem_cons.2 ⟨hk, hb⟩⟩
        · cases h
    · rintro ⟨before, after, hp, hb⟩
      cases before with
      | nil => exact .inl (List.cons.inj hp).1.symm
      | cons other before =>
        obtain ⟨rfl, rfl⟩ := List.cons.inj hp
        obtain ⟨hk, hb⟩ := List.forall_mem_cons.1 hb
        rw [if_pos hk]
        exact .inr (ih.2 ⟨before, after, rfl, hb⟩)

theorem visited_prefix_places (places : List String) : visited disk places <+: places := by
  induction places with
  | nil => exact List.prefix_rfl
  | cons place rest ih =>
    rw [visited_cons, List.prefix_cons_inj]
    split
    · exact ih
    · exact List.nil_prefix

/-! ## No place twice -/

/-- No two of some places are one: they differ in the parts that count. -/
def VisitsOnce (places : List String) : Prop :=
  places.Pairwise fun place other => samePath place other = false

instance (places : List String) : Decidable (VisitsOnce places) :=
  inferInstanceAs (Decidable (places.Pairwise _))

theorem samePath_comm (place other : String) : samePath place other = samePath other place := by
  simp [samePath, eq_comm]

theorem VisitsOnce.perm {places' : List String} (h : places.Perm places') :
    VisitsOnce places ↔ VisitsOnce places' :=
  h.pairwise_iff fun {place other} hs => by rwa [samePath_comm]

theorem visitsOnce_candidates (raw : String) : VisitsOnce (shelf.candidates raw) := by
  unfold Shelf.candidates VisitsOnce
  split
  · exact List.pairwise_singleton _ _
  · dsimp only
    split
    · exact List.pairwise_singleton _ _
    · split
      · exact List.pairwise_singleton _ _
      · rename_i h
        rw [samePath_comm] at h
        simpa using h

theorem visitsOnce_visited (raw : String) : VisitsOnce (visited disk (shelf.candidates raw)) :=
  (visitsOnce_candidates raw).sublist (visited_prefix_places _).sublist

/-- Two media paths lead to one place. -/
def Meet (disk : Disk) (shelf : Shelf) (raw raw' : String) : Prop :=
  ∃ place place', Reached disk (shelf.candidates raw) place ∧
    Reached disk (shelf.candidates raw') place' ∧ samePath place place' = true

theorem not_meet_iff {raw' : String} : ¬ Meet disk shelf raw raw' ↔
    ∀ place ∈ visited disk (shelf.candidates raw), ∀ place' ∈ visited disk (shelf.candidates raw'),
      samePath place place' = false := by
  simp only [Meet, mem_visited_iff, not_exists, not_and, Bool.not_eq_true]
  exact ⟨fun h place hp place' hp' => h place place' hp hp',
    fun h place place' hp hp' => h place hp place' hp'⟩

/-! ## The places of a run -/

/-- The paths up to the first whose look-up fails. -/
def upToFailure (disk : Disk) (shelf : Shelf) : List String → List String
  | [] => []
  | raw :: rest =>
    match probe disk (shelf.candidates raw) with
    | .ok _ => raw :: upToFailure disk shelf rest
    | .error _ => [raw]

/-- The distinct paths that are looked up in a run with a cache: all of them side by side, and none
after a failure in turn. -/
def lookedUp (disk : Disk) (settings : CheckSettings) (shelf : Shelf) (refs : List Reference) :
    List String :=
  if settings.skipFiles then []
  else if settings.parallelThreshold ≤ (distinctPaths refs).length then distinctPaths refs
  else upToFailure disk shelf (distinctPaths refs)

theorem upToFailure_prefix_raws (raws : List String) : upToFailure disk shelf raws <+: raws := by
  induction raws with
  | nil => exact List.prefix_rfl
  | cons raw rest ih =>
    rw [upToFailure]
    split
    · exact (List.prefix_cons_inj raw).2 ih
    · exact ⟨rest, rfl⟩

theorem lookedUp_prefix_distinct : lookedUp disk settings shelf refs <+: distinctPaths refs := by
  unfold lookedUp
  split
  · exact List.nil_prefix
  · split
    · exact List.prefix_rfl
    · exact upToFailure_prefix_raws _

theorem visitedInTurn_eq (raws : List String) : visitedInTurn disk (raws.map shelf.candidates) =
    (upToFailure disk shelf raws).flatMap fun raw => visited disk (shelf.candidates raw) := by
  induction raws with
  | nil => rfl
  | cons raw rest ih =>
    rw [List.map_cons, visitedInTurn, upToFailure]
    cases probe disk (shelf.candidates raw) with
    | ok answer => rw [List.flatMap_cons, ← ih]
    | error e => rw [List.flatMap_singleton]

/-- With a cache there is one job for each distinct path. -/
theorem jobs_eq (hc : settings.cache = true) :
    jobs settings shelf refs = (distinctPaths refs).map shelf.candidates := by
  rw [jobs, if_pos hc, distinctPaths, ← distinct_grouped, List.map_map]
  rfl

theorem visitedPlaces_eq (hc : settings.cache = true) : visitedPlaces disk settings shelf refs =
    (lookedUp disk settings shelf refs).flatMap fun raw => visited disk (shelf.candidates raw) := by
  have hlen : (grouped refs).length = (distinctPaths refs).length := by
    rw [distinctPaths, ← distinct_grouped, List.length_map]
  unfold visitedPlaces lookedUp
  rw [jobs_eq hc, hlen]
  cases settings.skipFiles with
  | true => rfl
  | false =>
    cases refs with
    | nil => simp [distinctPaths, upToFailure]
    | cons r rest =>
      simp only [Bool.false_eq_true, if_false, Bool.false_or, List.isEmpty_cons]
      split
      · rw [List.flatMap_map]
      · exact visitedInTurn_eq _

/-! ## The cache -/

/-- A script with two references, both through the directory of the media files. -/
def twoWays : Document :=
  ⟨[("timeline", .object [("music", .object [("src", .string "tune")]),
      ("sound", .object [("src", .string "media/tune")])]),
    ("resourcesDir", .string "media"), ("output", .object [("format", .string "mp4")])]⟩

/-- **When the cache keeps places from being looked at twice.** With a cache each distinct path is
looked up at most once, and all of them are unless a look-up fails. A run writes down the places of
these look-ups, and no place twice exactly when no two of the paths meet. -/
theorem visits_once_iff (disk : Disk) (settings : CheckSettings) (shelf : Shelf)
    (refs : List Reference) (hc : settings.cache = true) :
    lookedUp disk settings shelf refs <+: distinctPaths refs ∧
    RunLog disk settings shelf refs (visitedPlaces disk settings shelf refs) ∧
    ∀ log, RunLog disk settings shelf refs log →
      log.Perm ((lookedUp disk settings shelf refs).flatMap fun raw =>
        visited disk (shelf.candidates raw)) ∧
      (VisitsOnce log ↔
        (lookedUp disk settings shelf refs).Pairwise fun raw raw' => ¬ Meet disk shelf raw raw') := by
  refine ⟨lookedUp_prefix_distinct, runLog_visitedPlaces, fun log hlog => ?_⟩
  have hperm := hlog.perm
  rw [visitedPlaces_eq hc] at hperm
  refine ⟨hperm, ?_⟩
  rw [VisitsOnce.perm hperm, VisitsOnce, List.pairwise_flatMap]
  simp only [not_meet_iff]
  exact ⟨fun h => h.2, fun h => ⟨fun raw _ => visitsOnce_visited raw, h⟩⟩

theorem visits_once_iff_apart :
    let refs := [referenceTo "clip", referenceTo "tune"]
    CheckSettings.standard.cache = true ∧
      VisitsOnce (visitedPlaces twinTree.disk .standard twinShelf refs) ∧
      (lookedUp twinTree.disk .standard twinShelf refs).Pairwise
        fun raw raw' => ¬ Meet twinTree.disk twinShelf raw raw' := by
  intro refs
  have hvisits : VisitsOnce (visitedPlaces twinTree.disk .standard twinShelf refs) := by
    decide +kernel
  obtain ⟨-, hlog, hruns⟩ := visits_once_iff twinTree.disk .standard twinShelf refs rfl
  exact ⟨rfl, hvisits, (hruns _ hlog).2.1 hvisits⟩

/-- A run with a cache looks twice at one place, for the two paths that lead to it. -/
theorem place_visited_twice :
    let log := ["/tune", "/media/tune", "/media/tune"]
    CheckSettings.standard.cache = true ∧
      RunLog twinTree.disk .standard (shelfOf .standard "/" twoWays) (references twoWays) log ∧
      ¬ VisitsOnce log := by
  intro log
  have hlog : visitedPlaces twinTree.disk .standard (shelfOf .standard "/" twoWays)
      (references twoWays) = log := by decide +kernel
  exact ⟨rfl, hlog ▸ runLog_visitedPlaces, by decide +kernel⟩

end VideoScript.Media
