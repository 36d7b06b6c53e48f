import Mathlib.Data.List.Nodup
import VideoScript.Proofs.Lists
import VideoScript.Settings.Sources

/-!
# The environment as a layer

What an environment says is `lastValue?`: of the values of a variable, the last one. Putting its
variables one after the other before options comes out as putting all of them there at once
(`withEnvironment_eq`), when they have valid values, and fails otherwise (`isOk_withEnvironment`).
So the order of different variables does not matter (`withEnvironment_perm`), and other variables do
not matter at all (`withEnvironment_filter`).
-/

set_option autoImplicit false

namespace VideoScript.Options

open Text

/-! ## Values -/

/-- The words that stand for true. -/
def trueWords : List String := ["1", "true", "yes", "on"]

/-- The words that stand for false. -/
def falseWords : List String := ["0", "false", "no", "off"]

/-- The truth value that a text stands for, whatever the case of its letters and the blanks around
it. -/
def boolOf? (value : String) : Option Bool :=
  if lowerCase (trim value) ∈ trueWords then some true
  else if lowerCase (trim value) ∈ falseWords then some false
  else none

/-- The number that a text stands for, whatever the blanks around it. -/
def countOf? (value : String) : Option Nat := natural? maxWord (trim value).toList

/-- The variables with a truth value. -/
def boolVariables : List String :=
  ["VALIDATION_STRICT_MODE", "VALIDATION_SKIP_FILE_VALIDATION", "VALIDATION_ENABLE_CACHE",
   "VALIDATION_VERBOSE"]

/-- The variables with a number. -/
def countVariables : List String := ["VALIDATION_MAX_WORKERS", "VALIDATION_PARALLEL_THRESHOLD"]

/-- A variable has a value of its kind. -/
structure IsValid (x : String × String) : Prop where
  bool : x.1 ∈ boolVariables → boolOf? x.2 ≠ none
  count : x.1 ∈ countVariables → countOf? x.2 ≠ none

/-- What variables say, as far as they have values of their kinds. -/
def ValidAt (get : String → Option String) : Prop :=
  ∀ name value, get name = some value → IsValid (name, value)

/-- The options with what variables say before them. -/
def layered (o : Options) (get : String → Option String) : Options where
  check :=
    { strict := ((get "VALIDATION_STRICT_MODE").bind boolOf?).or o.check.strict
      skipFiles := ((get "VALIDATION_SKIP_FILE_VALIDATION").bind boolOf?).or o.check.skipFiles
      maxWorkers := ((get "VALIDATION_MAX_WORKERS").bind countOf?).or o.check.maxWorkers
      parallelThreshold :=
        ((get "VALIDATION_PARALLEL_THRESHOLD").bind countOf?).or o.check.parallelThreshold
      cache := ((get "VALIDATION_ENABLE_CACHE").bind boolOf?).or o.check.cache
      verbose := ((get "VALIDATION_VERBOSE").bind boolOf?).or o.check.verbose
      resourcesDir := o.check.resourcesDir }
  service :=
    { o.service with
      apiKey := (get "SHOTSTACK_API_KEY").or o.service.apiKey
      ingestUrl := (get "SHOTSTACK_INGEST_URL").or o.service.ingestUrl
      editUrl := (get "SHOTSTACK_EDIT_URL").or o.service.editUrl }
  logFormat := o.logFormat

/-- What a single variable says. -/
def only (name value : String) (other : String) : Option String :=
  if other = name then some value else none

/-- The last value of a variable. -/
def lastValue? (environment : List (String × String)) (name : String) : Option String :=
  environment.reverse.lookup name

variable {o o' : Options} {name value : String} {environment environment' : List (String × String)}

/-! ## One variable -/

theorem readBool_eq (name value : String) : readBool name value = match boolOf? value with
    | some b => .ok b
    | none => .error (.notBool name value) := by
  unfold readBool boolOf? trueWords falseWords
  simp only [List.contains_iff_mem]
  split
  · rfl
  · split <;> rfl

theorem readCount_eq (name value : String) : readCount name value = match countOf? value with
    | some n => .ok n
    | none => .error (.notCount name value) := rfl

/-- Whether a variable has a valid value decides what comes of it. -/
def Decides (name value : String) (r : Except SourceError Options) (o : Options) : Prop :=
  IsValid (name, value) ∧ r = .ok o ∨ ¬ IsValid (name, value) ∧ ∃ e, r = .error e

theorem decides_bool {f : Bool → Options} (hb : name ∈ boolVariables) (hc : name ∉ countVariables)
    (hf : ∀ b, boolOf? value = some b → f b = o) :
    Decides name value ((readBool name value).map f) o := by
  rw [readBool_eq]
  cases hv : boolOf? value with
  | some b =>
    have hvalid : IsValid (name, value) := ⟨fun _ => by simp [hv], fun h => absurd h hc⟩
    exact .inl ⟨hvalid, congrArg Except.ok (hf b hv)⟩
  | none => exact .inr ⟨fun h => h.bool hb hv, _, rfl⟩

theorem decides_count {f : Nat → Options} (hb : name ∉ boolVariables) (hc : name ∈ countVariables)
    (hf : ∀ n, countOf? value = some n → f n = o) :
    Decides name value ((readCount name value).map f) o := by
  rw [readCount_eq]
  cases hv : countOf? value with
  | some n =>
    have hvalid : IsValid (name, value) := ⟨fun h => absurd h hb, fun _ => by simp [hv]⟩
    exact .inl ⟨hvalid, congrArg Except.ok (hf n hv)⟩
  | none => exact .inr ⟨fun h => h.count hc hv, _, rfl⟩

theorem decides_any (hb : name ∉ boolVariables) (hc : name ∉ countVariables) (h : o' = o) :
    Decides name value (.ok o') o :=
  .inl ⟨⟨fun hm => absurd hm hb, fun hm => absurd hm hc⟩, congrArg Except.ok h⟩

theorem only_self (name value : String) : only name value name = some value := if_pos rfl

theorem only_of_ne {other : String} (h : other ≠ name) : only name value other = none := if_neg h

theorem withVariable_decides (o : Options) (name value : String) :
    Decides name value (o.withVariable name value) (o.layered (only name value)) := by
  unfold withVariable
  dsimp only
  split
  case h_1 | h_2 | h_3 | h_4 =>
    refine decides_bool (by decide) (by decide) fun b hb => ?_
    simp (disch := decide) only [layered, only_self, only_of_ne, hb, Option.bind_some,
      Option.bind_none, Option.none_or, Option.some_or]
  case h_5 | h_6 =>
    refine decides_count (by decide) (by decide) fun n hn => ?_
    simp (disch := decide) only [layered, only_self, only_of_ne, hn, Option.bind_some,
      Option.bind_none, Option.none_or, Option.some_or]
  case h_7 | h_8 | h_9 =>
    refine decides_any (by decide) (by decide) ?_
    simp (disch := decide) only [layered, only_self, only_of_ne, Option.bind_none, Option.none_or,
      Option.some_or]
  case h_10 h1 h2 h3 h4 h5 h6 h7 h8 h9 =>
    refine decides_any ?_ ?_ ?_
    · simpa only [boolVariables, List.mem_cons, List.not_mem_nil, or_false, not_or] using
        And.intro h1 ⟨h2, h3, h4⟩
    · simpa only [countVariables, List.mem_cons, List.not_mem_nil, or_false, not_or] using
        And.intro h5 h6
    · simp only [layered, only_of_ne (Ne.symm h1), only_of_ne (Ne.symm h2),
        only_of_ne (Ne.symm h3), only_of_ne (Ne.symm h4), only_of_ne (Ne.symm h5),
        only_of_ne (Ne.symm h6), only_of_ne (Ne.symm h7), only_of_ne (Ne.symm h8),
        only_of_ne (Ne.symm h9), Option.bind_none, Option.none_or]

theorem withVariable_of_not_mem (h : name ∉ variableNames) : o.withVariable name value = .ok o := by
  unfold withVariable
  dsimp only
  split
  case h_10 => rfl
  all_goals exact absurd (by decide) h

/-! ## One variable after the other -/

theorem withEnvironment_cons (o : Options) (x : String × String)
    (rest : List (String × String)) : o.withEnvironment (x :: rest) =
      match o.withVariable x.1 x.2 with
      | .ok o => o.withEnvironment rest
      | .error e => .error e := by
  unfold withEnvironment
  rw [applyEnvironment]
  cases o.withVariable x.1 x.2 <;> rfl

theorem lastValue?_cons (x : String × String) (rest : List (String × String)) (name : String) :
    lastValue? (x :: rest) name = (lastValue? rest name).or (only x.1 x.2 name) := by
  unfold lastValue? only
  rw [List.reverse_cons, List.lookup_append, List.lookup_cons, List.lookup_nil]
  by_cases h : name = x.1
  · simp [h]
  · simp [h, beq_eq_false_iff_ne.2 h]

theorem mem_of_lastValue? (h : lastValue? environment name = some value) :
    (name, value) ∈ environment := by
  obtain ⟨before, after, he, -⟩ := List.lookup_eq_some_iff.1 h
  exact List.mem_reverse.1 (he ▸ by simp)

theorem validAt_lastValue? (h : ∀ x ∈ environment, IsValid x) :
    ValidAt (lastValue? environment) := fun _ _ hv => h _ (mem_of_lastValue? hv)

-- Without `h` an invalid first value hides the second one on the left, but not on the right.
theorem bind_or {α : Type} {read : String → Option α} {first second : Option String}
    (h : ∀ value, first = some value → read value ≠ none) :
    (first.or second).bind read = (first.bind read).or (second.bind read) := by
  cases first with
  | none => rfl
  | some value =>
    obtain ⟨v, hv⟩ := Option.ne_none_iff_exists'.1 (h value rfl)
    simp [hv]

theorem layered_layered {get get' : String → Option String} (h : ValidAt get') :
    (o.layered get).layered get' = o.layered fun name => (get' name).or (get name) := by
  have hbool (name : String) (hm : name ∈ boolVariables) : ∀ value, get' name = some value →
      boolOf? value ≠ none := fun value hv => (h name value hv).bool hm
  have hcount (name : String) (hm : name ∈ countVariables) : ∀ value, get' name = some value →
      countOf? value ≠ none := fun value hv => (h name value hv).count hm
  unfold layered
  dsimp only
  rw [bind_or (hbool _ (by decide)), bind_or (hbool _ (by decide)), bind_or (hbool _ (by decide)),
    bind_or (hbool _ (by decide)), bind_or (hcount _ (by decide)), bind_or (hcount _ (by decide))]
  simp only [Option.or_assoc]

theorem withEnvironment_eq (h : ∀ x ∈ environment, IsValid x) :
    o.withEnvironment environment = .ok (o.layered (lastValue? environment)) := by
  induction environment generalizing o with
  | nil => rfl
  | cons x rest ih =>
    obtain ⟨hx, hrest⟩ := List.forall_mem_cons.1 h
    rcases o.withVariable_decides x.1 x.2 with ⟨-, hv⟩ | ⟨hbad, -⟩
    · -- the first variable is the lowest layer: what the rest says goes before it
      rw [withEnvironment_cons, hv]
      dsimp only
      rw [ih hrest, layered_layered (validAt_lastValue? hrest)]
      have hlast : (fun name => (lastValue? rest name).or (only x.1 x.2 name)) =
          lastValue? (x :: rest) := funext fun name => (lastValue?_cons x rest name).symm
      rw [hlast]
    · exact absurd hx hbad

theorem valid_of_withEnvironment (h : o.withEnvironment environment = .ok o') :
    ∀ x ∈ environment, IsValid x := by
  induction environment generalizing o with
  | nil => simp
  | cons x rest ih =>
    rw [withEnvironment_cons] at h
    rcases o.withVariable_decides x.1 x.2 with ⟨hx, hv⟩ | ⟨-, e, he⟩
    · rw [hv] at h
      exact List.forall_mem_cons.2 ⟨hx, ih h⟩
    · rw [he] at h
      cases h

theorem isOk_withEnvironment :
    (∃ o', o.withEnvironment environment = .ok o') ↔ ∀ x ∈ environment, IsValid x :=
  ⟨fun ⟨_, h⟩ => valid_of_withEnvironment h, fun h => ⟨_, withEnvironment_eq h⟩⟩

theorem toOption_withEnvironment_of_not (h : ¬ ∀ x ∈ environment, IsValid x) :
    (o.withEnvironment environment).toOption = none := by
  cases he : o.withEnvironment environment with
  | ok o' => exact absurd (valid_of_withEnvironment he) h
  | error e => rfl

/-! ## Order and other variables -/

theorem lookup_eq_some_iff_mem (hn : (environment.map (·.1)).Nodup) :
    environment.lookup name = some value ↔ (name, value) ∈ environment := by
  induction environment with
  | nil => simp
  | cons x rest ih =>
    obtain ⟨hx, hn⟩ := List.nodup_cons.1 hn
    rw [List.lookup_cons, List.mem_cons]
    by_cases h : name = x.1
    · subst h
      have hrest : (x.1, value) ∉ rest := fun hm => hx (List.mem_map_of_mem (f := (·.1)) hm)
      simp [hrest, Prod.ext_iff, eq_comm]
    · have hne : (name, value) ≠ x := fun he => h (by rw [← he])
      rw [beq_eq_false_iff_ne.2 h, or_iff_right hne]
      exact ih hn

/-- Where no variable stands twice, their order does not matter. -/
theorem lastValue?_perm (h : environment.Perm environment') (hn : (environment.map (·.1)).Nodup) :
    lastValue? environment = lastValue? environment' := by
  have hn' : (environment'.map (·.1)).Nodup := (h.map _).nodup hn
  have hr (e : List (String × String)) (he : (e.map (·.1)).Nodup) :
      (e.reverse.map (·.1)).Nodup := by
    rw [List.map_reverse]
    exact List.nodup_reverse.2 he
  funext name
  refine Option.ext fun value => ?_
  rw [lastValue?, lastValue?, lookup_eq_some_iff_mem (hr _ hn), lookup_eq_some_iff_mem (hr _ hn'),
    List.mem_reverse, List.mem_reverse, h.mem_iff]

theorem withEnvironment_perm (h : environment.Perm environment')
    (hn : (environment.map (·.1)).Nodup) :
    (o.withEnvironment environment).toOption = (o.withEnvironment environment').toOption := by
  have hsame : (∀ x ∈ environment, IsValid x) ↔ ∀ x ∈ environment', IsValid x :=
    forall_congr' fun x => by rw [h.mem_iff]
  by_cases hvalid : ∀ x ∈ environment, IsValid x
  · rw [withEnvironment_eq hvalid, withEnvironment_eq (hsame.1 hvalid), lastValue?_perm h hn]
  · rw [toOption_withEnvironment_of_not hvalid, toOption_withEnvironment_of_not (mt hsame.2 hvalid)]

theorem withEnvironment_filter (o : Options) (environment : List (String × String)) :
    o.withEnvironment (environment.filter fun x => x.1 ∈ variableNames) =
      o.withEnvironment environment := by
  induction environment generalizing o with
  | nil => rfl
  | cons x rest ih =>
    rw [List.filter_cons]
    by_cases h : x.1 ∈ variableNames
    · rw [if_pos (decide_eq_true h), withEnvironment_cons, withEnvironment_cons]
      cases o.withVariable x.1 x.2 with
      | ok o => exact ih o
      | error e => rfl
    · rw [if_neg (by simpa using h), withEnvironment_cons, withVariable_of_not_mem h]
      exact ih o

end VideoScript.Options
