import VideoScript.Command.Arguments
import VideoScript.Proofs.Lists

/-!
# One option more on a command line

A command line is taken apart argument by argument (`take`, `scan_cons`). `SameBut names a a'`: two
command lines have the same parts but for the options in `names`, and stay so while both go on with
the same arguments (`SameBut.steady`, `Steady.scan`). Arguments that give one of these options and
nothing else (`Gives`) may be put anywhere into a command line: where both command lines can be taken
apart, their parts are the same but for these options, or the longer one has more places
(`scan_insert`), since behind two hyphens everything is a place.
-/

set_option autoImplicit false

namespace VideoScript.Command

open Text

namespace Arguments

variable {forms : List OptionForm} {names : List String} {a a' b b' g g' : Arguments}
  {open? next? next?' : Option String} {name value arg : String}

/-! ## Adding a part -/

theorem addFlag_eq_ok_iff : a.addFlag name = .ok b ↔
    a.has name = false ∧ b = { a with flags := a.flags ++ [name] } := by
  unfold addFlag
  cases a.has name <;> simp [eq_comm]

theorem addValue_eq_ok_iff : a.addValue name value = .ok b ↔
    a.has name = false ∧ b = { a with values := a.values ++ [(name, value)] } := by
  unfold addValue
  cases a.has name <;> simp [eq_comm]

theorem has_addFlag (h : a.addFlag name = .ok b) (other : String) :
    b.has other = (a.has other || other = name) := by
  obtain ⟨-, rfl⟩ := addFlag_eq_ok_iff.1 h
  unfold has
  by_cases ho : other = name <;> simp [ho]

theorem lookup_snoc (values : List (String × String)) (name value other : String) :
    (values ++ [(name, value)]).lookup other =
      (values.lookup other).or (if other = name then some value else none) := by
  rw [List.lookup_append, List.lookup_cons]
  by_cases ho : other = name
  · simp [ho]
  · simp [ho, beq_false_of_ne ho]

theorem has_addValue (h : a.addValue name value = .ok b) (other : String) :
    b.has other = (a.has other || other = name) := by
  obtain ⟨-, rfl⟩ := addValue_eq_ok_iff.1 h
  unfold has
  rw [lookup_snoc, Option.isSome_or, Bool.or_assoc]
  by_cases ho : other = name <;> simp [ho]

theorem value?_addValue (h : a.addValue name value = .ok b) (other : String) :
    b.value? other = (a.value? other).or (if other = name then some value else none) := by
  obtain ⟨-, rfl⟩ := addValue_eq_ok_iff.1 h
  exact lookup_snoc _ _ _ _

theorem eq_ok_of_map {r : Except UsageError Arguments}
    (h : r.map (fun a => (a, (none : Option String))) = .ok (b, next?)) :
    r = .ok b ∧ next? = none := by
  cases r <;> cases h
  exact ⟨rfl, rfl⟩

/-! ## Parts that agree -/

/-- The parts of two command lines agree but for some options. -/
structure SameBut (names : List String) (a a' : Arguments) : Prop where
  has : ∀ name ∉ names, a'.has name = a.has name
  value : ∀ name ∉ names, a'.value? name = a.value? name
  places : a'.places = a.places

namespace SameBut

theorem snocFlag (hn : name ∈ names) (h : a.addFlag name = .ok b) : SameBut names a b := by
  refine ⟨fun other ho => ?_, fun other ho => ?_, ?_⟩
  · have hne : other ≠ name := fun he => ho (he ▸ hn)
    simp [has_addFlag h, hne]
  · obtain ⟨-, rfl⟩ := addFlag_eq_ok_iff.1 h
    rfl
  · obtain ⟨-, rfl⟩ := addFlag_eq_ok_iff.1 h
    rfl

theorem snocValue (hn : name ∈ names) (h : a.addValue name value = .ok b) : SameBut names a b := by
  refine ⟨fun other ho => ?_, fun other ho => ?_, ?_⟩
  · have hne : other ≠ name := fun he => ho (he ▸ hn)
    simp [has_addValue h, hne]
  · have hne : other ≠ name := fun he => ho (he ▸ hn)
    simp [value?_addValue h, hne]
  · obtain ⟨-, rfl⟩ := addValue_eq_ok_iff.1 h
    rfl

theorem trans {c : Arguments} (h : SameBut names a b) (h' : SameBut names b c) :
    SameBut names a c :=
  ⟨fun other ho => (h'.has other ho).trans (h.has other ho),
    fun other ho => (h'.value other ho).trans (h.value other ho), h'.places.trans h.places⟩

end SameBut

/-! ## Relations that last -/

/-- A relation between the parts of two command lines that lasts while both get the same parts. -/
structure Steady (R : Arguments → Arguments → Prop) : Prop where
  flag : ∀ {a a' b b' : Arguments} {name : String}, R a a' → a.addFlag name = .ok b →
    a'.addFlag name = .ok b' → R b b'
  value : ∀ {a a' b b' : Arguments} {name value : String}, R a a' → a.addValue name value = .ok b →
    a'.addValue name value = .ok b' → R b b'
  places : ∀ {a a' : Arguments} (more : List String), R a a' →
    R { a with places := a.places ++ more } { a' with places := a'.places ++ more }

theorem SameBut.steady : Steady (SameBut names) where
  flag h hb hb' := by
    refine ⟨fun other ho => ?_, ?_, ?_⟩
    · rw [has_addFlag hb, has_addFlag hb', h.has other ho]
    all_goals
      obtain ⟨-, rfl⟩ := addFlag_eq_ok_iff.1 hb
      obtain ⟨-, rfl⟩ := addFlag_eq_ok_iff.1 hb'
    · exact h.value
    · exact h.places
  value h hb hb' := by
    refine ⟨fun other ho => ?_, fun other ho => ?_, ?_⟩
    · rw [has_addValue hb, has_addValue hb', h.has other ho]
    · rw [value?_addValue hb, value?_addValue hb', h.value other ho]
    · obtain ⟨-, rfl⟩ := addValue_eq_ok_iff.1 hb
      obtain ⟨-, rfl⟩ := addValue_eq_ok_iff.1 hb'
      exact h.places
  places more h := ⟨h.has, h.value, congrArg (· ++ more) h.places⟩

/-- The second command line has an option, and the parts agree but for it. -/
def Gained (name : String) (a a' : Arguments) : Prop :=
  SameBut [name] a a' ∧ a'.has name = true

theorem steady_gained (name : String) : Steady (Gained name) where
  flag h hb hb' := ⟨SameBut.steady.flag h.1 hb hb', by rw [has_addFlag hb', h.2, Bool.true_or]⟩
  value h hb hb' := ⟨SameBut.steady.value h.1 hb hb', by rw [has_addValue hb', h.2, Bool.true_or]⟩
  places more h := ⟨SameBut.steady.places more h.1, h.2⟩

/-! ## One argument after the other -/

/-- Takes an argument that is not two hyphens alone, where no option is open. -/
def takeNext (forms : List OptionForm) (a : Arguments) (arg : String) :
    Except UsageError (Arguments × Option String) :=
  match arg.toList with
  | '-' :: '-' :: s => takeLong forms a s
  | '-' :: c :: s => takeLetters forms a (c :: s)
  | _ => .ok (a.addPlace arg, none)

/-- Takes the value of the option that is open. -/
def takeValue (a : Arguments) (name arg : String) : Except UsageError (Arguments × Option String) :=
  match arg.toList with
  | '-' :: _ :: _ => .error (.missingValue name)
  | _ => (a.addValue name arg).map fun a => (a, none)

/-- Takes an argument that is not two hyphens alone. -/
def take (forms : List OptionForm) (open? : Option String) (a : Arguments) (arg : String) :
    Except UsageError (Arguments × Option String) :=
  match open? with
  | none => takeNext forms a arg
  | some name => takeValue a name arg

theorem scan_hyphens (rest : List String) :
    scan forms none a ("--" :: rest) = .ok { a with places := a.places ++ rest } := rfl

theorem scan_next (h : arg ≠ "--") (rest : List String) :
    scan forms none a (arg :: rest) =
      takeNext forms a arg >>= fun x => scan forms x.2 x.1 rest := by
  rcases hlist : arg.toList with _ | ⟨c, _ | ⟨d, s⟩⟩
  · simp only [scan, takeNext, hlist]
    rfl
  · simp only [scan, takeNext, hlist]
    rfl
  · by_cases hc : c = '-'
    · subst hc
      by_cases hd : d = '-'
      · subst hd
        have hs : s = [] → False := by
          rintro rfl
          exact h (String.toList_inj.1 hlist)
        simp only [scan, takeNext, hlist]
        cases takeLong forms a s <;> rfl
      · simp only [scan, takeNext, hlist, hd, imp_false, IsEmpty.forall_iff]
        cases takeLetters forms a (d :: s) <;> rfl
    · simp only [scan, takeNext, hlist, hc, List.cons.injEq, false_and, imp_self, implies_true]
      rfl

theorem scan_value (rest : List String) :
    scan forms (some name) a (arg :: rest) =
      takeValue a name arg >>= fun x => scan forms x.2 x.1 rest := by
  rcases hlist : arg.toList with _ | ⟨c, _ | ⟨d, s⟩⟩
  · simp only [scan, takeValue, hlist]
    cases a.addValue name arg <;> rfl
  · simp only [scan, takeValue, hlist]
    cases a.addValue name arg <;> rfl
  · by_cases hc : c = '-'
    · subst hc
      simp only [scan, takeValue, hlist]
      rfl
    · simp only [scan, takeValue, hlist, hc, List.cons.injEq, false_and, imp_self, implies_true]
      cases a.addValue name arg <;> rfl

theorem scan_cons (h : open? ≠ none ∨ arg ≠ "--") (rest : List String) :
    scan forms open? a (arg :: rest) =
      take forms open? a arg >>= fun x => scan forms x.2 x.1 rest := by
  cases open? with
  | none => exact scan_next (h.resolve_left fun hn => hn rfl) rest
  | some name => exact scan_value rest

/-- Taking an argument on both sides keeps a relation, and leaves the same option open. -/
def Keeps (R : Arguments → Arguments → Prop)
    (take : Arguments → Except UsageError (Arguments × Option String)) : Prop :=
  ∀ a a' b b' next? next?', R a a' → take a = .ok (b, next?) → take a' = .ok (b', next?') →
    R b b' ∧ next?' = next?

section
variable {R : Arguments → Arguments → Prop}

theorem keeps_error (e : Arguments → UsageError) : Keeps R fun a => .error (e a) := by
  intro a a' b b' next? next?' _ hb
  cases hb

theorem keeps_ok (next? : Option String) : Keeps R fun a => .ok (a, next?) := by
  intro a a' b b' _ _ h hb hb'
  cases hb
  cases hb'
  exact ⟨h, rfl⟩

theorem keeps_bind {add : Arguments → Except UsageError Arguments}
    {take : Arguments → Except UsageError (Arguments × Option String)}
    (hadd : ∀ a a' b b', R a a' → add a = .ok b → add a' = .ok b' → R b b') (h : Keeps R take) :
    Keeps R fun a => add a >>= take := by
  intro a a' b b' next? next?' hR hb hb'
  obtain ⟨c, hc, hb⟩ := bind_eq_ok hb
  obtain ⟨c', hc', hb'⟩ := bind_eq_ok hb'
  exact h c c' b b' next? next?' (hadd a a' c c' hR hc hc') hb hb'

theorem keeps_map {add : Arguments → Except UsageError Arguments}
    (hadd : ∀ a a' b b', R a a' → add a = .ok b → add a' = .ok b' → R b b') :
    Keeps R fun a => (add a).map fun a => (a, none) := by
  refine (congrArg (Keeps R) (funext fun a => ?_)).mp (keeps_bind hadd (keeps_ok none))
  cases add a <;> rfl

theorem keeps_open (name : String) : Keeps R fun a =>
    if a.has name then .error (.repeated name) else .ok (a, some name) := by
  intro a a' b b' next? next?' h hb hb'
  dsimp only at hb hb'
  split at hb
  · cases hb
  · split at hb'
    · cases hb'
    · exact keeps_ok (some name) a a' b b' next? next?' h hb hb'

variable (hR : Steady R)
include hR

theorem keeps_flag (name : String) : Keeps R fun a => (a.addFlag name).map fun a => (a, none) :=
  keeps_map fun _ _ _ _ => hR.flag

theorem keeps_value (name value : String) :
    Keeps R fun a => (a.addValue name value).map fun a => (a, none) :=
  keeps_map fun _ _ _ _ => hR.value

theorem keeps_takeLong (s : List Char) : Keeps R fun a => takeLong forms a s := by
  unfold takeLong
  dsimp only
  generalize forms.find? _ = form?
  generalize List.drop _ s = tail
  rcases form? with _ | form
  · exact keeps_error _
  · rcases tail with _ | ⟨c, value⟩ <;> dsimp only <;> split
    · exact keeps_open _
    · exact keeps_flag hR _
    · exact keeps_value hR _ _
    · exact keeps_error _

theorem keeps_takeLetters (s : List Char) : Keeps R fun a => takeLetters forms a s := by
  induction s with
  | nil => exact keeps_ok none
  | cons c rest ih =>
    unfold takeLetters
    generalize forms.find? _ = form?
    rcases form? with _ | form
    · exact keeps_error _
    · dsimp only
      split
      · split
        · exact keeps_open _
        · exact keeps_value hR _ _
        · exact keeps_value hR _ _
      · have hflag : ∀ a a' b b', R a a' → a.addFlag form.name = .ok b →
            a'.addFlag form.name = .ok b' → R b b' := fun _ _ _ _ => hR.flag
        refine (congrArg (Keeps R) (funext fun a => ?_)).mp (keeps_bind hflag ih)
        cases a.addFlag form.name <;> rfl

theorem keeps_take (open? : Option String) (arg : String) :
    Keeps R fun a => take forms open? a arg := by
  unfold take takeNext takeValue
  cases open? with
  | none =>
    dsimp only
    generalize arg.toList = s
    split
    · exact keeps_takeLong hR _
    · exact keeps_takeLetters hR _
    · intro a a' b b' _ _ h hb hb'
      cases hb
      cases hb'
      exact ⟨hR.places [arg] h, rfl⟩
  | some name =>
    dsimp only
    generalize arg.toList = s
    split
    · exact keeps_error _
    · exact keeps_value hR _ _

/-- The same arguments keep a steady relation. -/
theorem Steady.scan {args : List String} (h : R a a')
    (hg : Arguments.scan forms open? a args = .ok g)
    (hg' : Arguments.scan forms open? a' args = .ok g') : R g g' := by
  induction args generalizing open? a a' with
  | nil =>
    cases open? with
    | none =>
      cases hg
      cases hg'
      exact h
    | some name => cases hg
  | cons arg rest ih =>
    by_cases hplain : open? ≠ none ∨ arg ≠ "--"
    · rw [scan_cons hplain] at hg hg'
      obtain ⟨⟨b, next?⟩, hb, hg⟩ := bind_eq_ok hg
      obtain ⟨⟨b', next?'⟩, hb', hg'⟩ := bind_eq_ok hg'
      obtain ⟨hnext, rfl⟩ := keeps_take hR open? arg a a' b b' next? next?' h hb hb'
      exact ih hnext hg hg'
    · obtain ⟨rfl, rfl⟩ : open? = none ∧ arg = "--" := by simpa using hplain
      cases hg
      cases hg'
      exact hR.places rest h

end

/-! ## One option more -/

/-- Arguments that give options, and so relate what was before to what comes after. They do not
stand for the value of an option before them. -/
structure Gives (forms : List OptionForm) (R : Arguments → Arguments → Prop)
    (extra : List String) : Prop where
  ne_nil : extra ≠ []
  given : ∀ open? a rest g, scan forms open? a (extra ++ rest) = .ok g →
    open? = none ∧ ∃ b, R a b ∧ scan forms none b rest = .ok g

section
variable {R : Arguments → Arguments → Prop}

theorem takeValue_eq_ok (h : takeValue a name value = .ok (b, next?)) :
    (∀ c s, value.toList ≠ '-' :: c :: s) ∧ a.addValue name value = .ok b ∧ next? = none := by
  unfold takeValue at h
  split at h
  · cases h
  · rename_i hvalue
    exact ⟨hvalue, eq_ok_of_map h⟩

theorem takeNext_long (forms : List OptionForm) (a : Arguments) (s : String) :
    takeNext forms a ("--" ++ s) = takeLong forms a s.toList := by
  unfold takeNext
  rw [String.toList_append]
  rfl

theorem takeNext_letters (forms : List OptionForm) (a : Arguments) {c : Char} (cs : List Char)
    (hc : c ≠ '-') : takeNext forms a (.ofList ('-' :: c :: cs)) = takeLetters forms a (c :: cs) := by
  unfold takeNext
  rw [String.toList_ofList]
  split
  · rename_i h
    cases h
    exact absurd rfl hc
  · rename_i h
    cases h
    rfl
  · rename_i h
    exact absurd rfl (h _ _)

theorem takeLetters_flag {form : OptionForm} {c : Char} (rest : List Char)
    (hfind : forms.find? (fun form => form.letter = some c) = some form)
    (hv : form.takesValue = false) : takeLetters forms a (c :: rest) =
      a.addFlag form.name >>= fun a => takeLetters forms a rest := by
  rw [takeLetters, hfind]
  dsimp only
  rw [hv, if_neg (by decide)]
  cases a.addFlag form.name <;> rfl

theorem hyphens_append_ne {s : String} (h : s ≠ "") : "--" ++ s ≠ "--" := by
  intro he
  have hlist := congrArg String.toList he
  rw [String.toList_append, List.append_right_eq_self] at hlist
  exact h (String.toList_eq_nil_iff.1 hlist)

/-- What stands before the first equals sign is the name of an option. -/
theorem takeWhile_name (h : '=' ∉ name.toList) {rest : List Char}
    (hrest : rest = [] ∨ ∃ s, rest = '=' :: s) :
    (name.toList ++ rest).takeWhile (· ≠ '=') = name.toList := by
  have hall : ∀ c ∈ name.toList, decide (c ≠ '=') = true := fun c hc =>
    decide_eq_true fun he => h (he ▸ hc)
  rw [List.takeWhile_append_of_pos hall]
  obtain rfl | ⟨s, rfl⟩ := hrest <;> simp

/-- One argument that is an option. -/
theorem gives_one {c : Char} {s : List Char} (hs : arg.toList = '-' :: c :: s) (hne : arg ≠ "--")
    (h : ∀ a b next?, takeNext forms a arg = .ok (b, next?) → R a b ∧ next? = none) :
    Gives forms R [arg] := by
  refine ⟨by simp, fun open? a rest g hg => ?_⟩
  rw [List.singleton_append, scan_cons (.inr hne)] at hg
  obtain ⟨⟨b, next?⟩, hb, hrest⟩ := bind_eq_ok hg
  cases open? with
  | none =>
    obtain ⟨hR, rfl⟩ := h a b next? hb
    exact ⟨rfl, b, hR, hrest⟩
  | some name => exact absurd hs ((takeValue_eq_ok hb).1 _ _)

/-- An option and the argument after it, which is its value. -/
theorem gives_two {c : Char} {s : List Char} (hs : arg.toList = '-' :: c :: s) (hne : arg ≠ "--")
    (h : ∀ a b next?, takeNext forms a arg = .ok (b, next?) → b = a ∧ next? = some name)
    (hvalue : ∀ a b, a.addValue name value = .ok b → R a b) : Gives forms R [arg, value] := by
  refine ⟨by simp, fun open? a rest g hg => ?_⟩
  rw [List.cons_append, scan_cons (.inr hne)] at hg
  obtain ⟨⟨b, next?⟩, hb, htail⟩ := bind_eq_ok hg
  cases open? with
  | none =>
    obtain ⟨rfl, rfl⟩ := h a b next? hb
    rw [List.singleton_append, scan_value] at htail
    obtain ⟨⟨d, next?⟩, htake, hrest⟩ := bind_eq_ok htail
    obtain ⟨-, hd, rfl⟩ := takeValue_eq_ok htake
    exact ⟨rfl, d, hvalue b d hd, hrest⟩
  | some other => exact absurd hs ((takeValue_eq_ok hb).1 _ _)

section
variable {form : OptionForm} (name : String)
  (hfind : forms.find? (fun form => form.name = name) = some form)
  (hname : '=' ∉ name.toList)
include hfind hname

theorem takeLong_flag (hv : form.takesValue = false) :
    takeLong forms a name.toList = (a.addFlag name).map fun a => (a, none) := by
  have htake := takeWhile_name hname (.inl rfl)
  rw [List.append_nil] at htake
  unfold takeLong
  simp only [htake, List.drop_length, String.ofList_toList, hfind, hv]
  rfl

theorem takeLong_open (hv : form.takesValue = true) : takeLong forms a name.toList =
    if a.has name then .error (.repeated name) else .ok (a, some name) := by
  have htake := takeWhile_name hname (.inl rfl)
  rw [List.append_nil] at htake
  unfold takeLong
  simp only [htake, List.drop_length, String.ofList_toList, hfind, hv]
  rfl

theorem takeLong_value (hv : form.takesValue = true) (value : String) :
    takeLong forms a (name ++ ("=" ++ value)).toList =
      (a.addValue name value).map fun a => (a, none) := by
  have hs : (name ++ ("=" ++ value)).toList = name.toList ++ '=' :: value.toList := by
    rw [String.toList_append, String.toList_append]
    rfl
  have htake := takeWhile_name hname (.inr ⟨value.toList, rfl⟩)
  unfold takeLong
  simp only [hs, htake, List.drop_left, String.ofList_toList, hfind, hv]
  rfl

theorem gives_flag (hv : form.takesValue = false) (hne : name ≠ "")
    (hR : ∀ a b, a.addFlag name = .ok b → R a b) : Gives forms R ["--" ++ name] := by
  refine gives_one String.toList_append (hyphens_append_ne hne) fun a b next? hb => ?_
  rw [takeNext_long, takeLong_flag name hfind hname hv] at hb
  obtain ⟨hadd, rfl⟩ := eq_ok_of_map hb
  exact ⟨hR a b hadd, rfl⟩

/-- An option by its long name, with its value behind an equals sign. -/
theorem gives_value (hv : form.takesValue = true) {value : String}
    (hR : ∀ a b, a.addValue name value = .ok b → R a b) :
    Gives forms R ["--" ++ (name ++ ("=" ++ value))] := by
  refine gives_one String.toList_append (hyphens_append_ne (by simp)) fun a b next? hb => ?_
  rw [takeNext_long, takeLong_value name hfind hname hv] at hb
  obtain ⟨hadd, rfl⟩ := eq_ok_of_map hb
  exact ⟨hR a b hadd, rfl⟩

/-- An option by its long name, with its value in the next argument. -/
theorem gives_valueNext (hv : form.takesValue = true) (hne : name ≠ "") {value : String}
    (hR : ∀ a b, a.addValue name value = .ok b → R a b) :
    Gives forms R ["--" ++ name, value] := by
  refine gives_two String.toList_append (hyphens_append_ne hne) (fun a b next? hb => ?_) hR
  rw [takeNext_long, takeLong_open name hfind hname hv] at hb
  split at hb
  · cases hb
  · cases hb
    exact ⟨rfl, rfl⟩

end

/-- Options put between other arguments do what they do at the end, or they stand behind two hyphens
and are places. -/
theorem scan_insert (hR : Steady R) {extra before after : List String} (he : Gives forms R extra)
    (hg : scan forms open? a (before ++ after) = .ok g)
    (hg' : scan forms open? a (before ++ (extra ++ after)) = .ok g') :
    R g g' ∨ g.places.length < g'.places.length := by
  -- both command lines are taken alike as far as the options
  induction before generalizing open? a with
  | nil =>
    obtain ⟨rfl, b, hb, hrest⟩ := he.given _ _ _ _ hg'
    exact .inl (hR.scan hb hg hrest)
  | cons arg rest ih =>
    rw [List.cons_append] at hg hg'
    by_cases hplain : open? ≠ none ∨ arg ≠ "--"
    · rw [scan_cons hplain] at hg hg'
      obtain ⟨⟨b, next?⟩, hb, hg⟩ := bind_eq_ok hg
      obtain ⟨⟨b', next?'⟩, hb', hg'⟩ := bind_eq_ok hg'
      rw [hb] at hb'
      cases hb'
      exact ih hg hg'
    · obtain ⟨rfl, rfl⟩ : open? = none ∧ arg = "--" := by simpa using hplain
      rw [scan_hyphens] at hg hg'
      cases hg
      cases hg'
      have hlength : 0 < extra.length := List.length_pos_iff.2 he.ne_nil
      exact .inr (by simp only [List.length_append]; omega)

end

end Arguments

end VideoScript.Command
