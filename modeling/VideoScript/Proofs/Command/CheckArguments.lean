import VideoScript.Proofs.Command.Arguments

/-!
# The command line of a check

`AsksFor a c`: the parts `a` of a command line ask for the check `c`. An option that says only how
the report is shown (`ShownOption`) may be put anywhere into the command line of a check: when it is
still one, it asks for the same check, shown in another way (`eq_of_shownOption`). The option for
strict mode makes it strict and changes nothing else (`eq_of_strict`).
-/

set_option autoImplicit false

namespace VideoScript.Command

open Text Arguments

/-! ## The options of a check -/

/-- The options that say only how a check shows its report. -/
def shownNames : List String := ["quiet", "verbose", "format"]

/-- Arguments that give such options. -/
inductive ShownOption : List String → Prop
  | quiet : ShownOption ["--quiet"]
  | verbose : ShownOption ["--verbose"]
  /-- One or more letters behind one hyphen. -/
  | letters {c : Char} {cs : List Char} (h : ∀ x ∈ c :: cs, x = 'q' ∨ x = 'v') :
      ShownOption [.ofList ('-' :: c :: cs)]
  | format (form : String) : ShownOption ["--format=" ++ form]
  | formatNext (form : String) : ShownOption ["--format", form]

theorem takeLetters_shown {cs : List Char} (h : ∀ x ∈ cs, x = 'q' ∨ x = 'v') {a b : Arguments}
    {next? : Option String} (hb : takeLetters checkForms a cs = .ok (b, next?)) :
    SameBut shownNames a b ∧ next? = none := by
  induction cs generalizing a with
  | nil =>
    cases hb
    exact ⟨⟨fun _ _ => rfl, fun _ _ => rfl, rfl⟩, rfl⟩
  | cons c rest ih =>
    obtain ⟨hc, hrest⟩ := List.forall_mem_cons.1 h
    obtain ⟨form, hn, hfind, hv⟩ : ∃ form : OptionForm, form.name ∈ shownNames ∧
        checkForms.find? (fun form => form.letter = some c) = some form ∧
          form.takesValue = false := by
      obtain rfl | rfl := hc
      · exact ⟨flag "quiet" (some 'q'), by decide, rfl, rfl⟩
      · exact ⟨flag "verbose" (some 'v'), by decide, rfl, rfl⟩
    rw [takeLetters_flag rest hfind hv] at hb
    obtain ⟨d, hd, hb⟩ := bind_eq_ok hb
    obtain ⟨hsame, hnext⟩ := ih hrest hb
    exact ⟨(SameBut.snocFlag hn hd).trans hsame, hnext⟩

theorem ShownOption.gives {extra : List String} (h : ShownOption extra) :
    Gives checkForms (SameBut shownNames) extra := by
  cases h with
  | quiet =>
    exact gives_flag "quiet" rfl (by decide) rfl (by decide) fun _ _ => .snocFlag (by decide)
  | verbose =>
    exact gives_flag "verbose" rfl (by decide) rfl (by decide) fun _ _ => .snocFlag (by decide)
  | @letters c cs h =>
    have hc : c ≠ '-' := by
      obtain rfl | rfl := h c List.mem_cons_self <;> decide
    refine gives_one String.toList_ofList ?_ fun a b next? hb => ?_
    · intro he
      have hlist := congrArg String.toList he
      rw [String.toList_ofList] at hlist
      cases hlist
      exact hc rfl
    · rw [takeNext_letters _ _ _ hc] at hb
      exact takeLetters_shown h hb
  | format form =>
    rw [show "--format=" = "--" ++ ("format" ++ "=") from rfl, String.append_assoc,
      String.append_assoc]
    exact gives_value "format" rfl (by decide) rfl fun _ _ => .snocValue (by decide)
  | formatNext form =>
    exact gives_valueNext "format" rfl (by decide) rfl (by decide) fun _ _ => .snocValue (by decide)

theorem gives_strict : Gives checkForms (Gained "strict") ["--strict"] :=
  gives_flag "strict" rfl (by decide) rfl (by decide) fun _ _ hb =>
    ⟨.snocFlag (by decide) hb, by simp [has_addFlag hb]⟩

/-! ## The check of a command line -/

/-- The parts of a command line that ask for a check. -/
structure AsksFor (a : Arguments) (c : CheckCommand) : Prop where
  places : a.places = [c.script]
  strict : c.strict = a.has "strict"
  skipFiles : c.skipFiles = a.has "skip-files"
  skipChecks : c.skipChecks = a.has "skip-validate"
  noCache : c.noCache = a.has "no-cache"
  maxWorkers : a.count? "max-workers" = .ok c.maxWorkers
  parallelThreshold : a.count? "parallel-threshold" = .ok c.parallelThreshold
  resourcesDir : a.path? "resources-dir" = .ok c.resourcesDir
  config : a.path? "config" = .ok c.config

theorem places_of_placeAt {a : Arguments} {script name : String}
    (h : a.placeAt 0 name = .ok script) (hno : a.noPlaceFrom 1 = .ok ()) : a.places = [script] := by
  unfold placeAt placeAt? at h
  unfold noPlaceFrom at hno
  rcases hp : a.places with _ | ⟨first, _ | ⟨second, rest⟩⟩
  · rw [hp] at h
    cases h
  · rw [hp] at h
    obtain ⟨place, hplace, h⟩ := bind_eq_ok h
    dsimp only [List.getElem?_cons_zero] at hplace
    split at hplace
    · cases hplace
    · cases hplace
      cases h
      rfl
  · rw [hp] at hno
    cases hno

theorem asksFor_of_ofArguments {a : Arguments} {c : CheckCommand}
    (h : CheckCommand.ofArguments a = .ok c) : AsksFor a c := by
  obtain ⟨script, hscript, h⟩ := bind_eq_ok h
  obtain ⟨⟨⟩, hno, h⟩ := bind_eq_ok h
  obtain ⟨workers, hworkers, h⟩ := bind_eq_ok h
  obtain ⟨threshold, hthreshold, h⟩ := bind_eq_ok h
  obtain ⟨dir, hdir, h⟩ := bind_eq_ok h
  obtain ⟨config, hconfig, h⟩ := bind_eq_ok h
  obtain ⟨form, -, h⟩ := bind_eq_ok h
  cases h
  exact ⟨places_of_placeAt hscript hno, rfl, rfl, rfl, rfl, hworkers, hthreshold, hdir, hconfig⟩

theorem parse_eq_check {args : List String} {c : CheckCommand} (h : parse args = .ok (.check c)) :
    ∃ rest a, args = "check" :: rest ∧ scan checkForms none .empty rest = .ok a ∧ AsksFor a c := by
  unfold parse at h
  split at h
  · cases h
  · split at h
    · obtain ⟨a, ha, h⟩ := bind_eq_ok h
      obtain ⟨c', hc, h⟩ := bind_eq_ok h
      cases h
      exact ⟨_, a, rfl, ha, asksFor_of_ofArguments hc⟩
    · obtain ⟨a, -, h⟩ := bind_eq_ok h
      obtain ⟨c', -, h⟩ := bind_eq_ok h
      cases h
    · obtain ⟨a, -, h⟩ := bind_eq_ok h
      obtain ⟨c', -, h⟩ := bind_eq_ok h
      cases h
    · cases h

theorem parse_insert {R : Arguments → Arguments → Prop} (hR : Steady R)
    {before extra after : List String} (he : Gives checkForms R extra) {c c' : CheckCommand}
    (h : parse ("check" :: (before ++ after)) = .ok (.check c))
    (h' : parse ("check" :: (before ++ (extra ++ after))) = .ok (.check c')) :
    ∃ a a', R a a' ∧ AsksFor a c ∧ AsksFor a' c' := by
  obtain ⟨rest, a, hrest, ha, hc⟩ := parse_eq_check h
  obtain ⟨rest', a', hrest', ha', hc'⟩ := parse_eq_check h'
  cases hrest
  cases hrest'
  refine ⟨a, a', (scan_insert hR he ha ha').resolve_right fun hmore => ?_, hc, hc'⟩
  -- a check has one place
  rw [hc.places, hc'.places] at hmore
  exact absurd hmore (Nat.lt_irrefl _)

/-- Command lines whose parts agree but for some options ask for the same but for these options. -/
theorem AsksFor.eq_of_sameBut {names : List String} {a a' : Arguments} {c c' : CheckCommand}
    (hc : AsksFor a c) (hc' : AsksFor a' c') (h : SameBut names a a')
    (hnames : ∀ name ∈ names, name ∈ "strict" :: shownNames) :
    c' = { c with
      strict := c'.strict, verbose := c'.verbose, quiet := c'.quiet, form := c'.form } := by
  have hother {name : String} (hn : name ∉ "strict" :: shownNames) : name ∉ names :=
    fun hm => hn (hnames name hm)
  have hhas {name : String} (hn : name ∉ "strict" :: shownNames) : a'.has name = a.has name :=
    h.has name (hother hn)
  have hcount {name : String} {n n' : Option Nat} (hn : name ∉ "strict" :: shownNames)
      (h1 : a.count? name = .ok n) (h2 : a'.count? name = .ok n') : n' = n := by
    rw [count?, h.value name (hother hn), ← count?, h1] at h2
    exact (Except.ok.inj h2).symm
  have hpath {name : String} {p p' : Option String} (hn : name ∉ "strict" :: shownNames)
      (h1 : a.path? name = .ok p) (h2 : a'.path? name = .ok p') : p' = p := by
    rw [path?, h.value name (hother hn), ← path?, h1] at h2
    exact (Except.ok.inj h2).symm
  have hscript : c'.script = c.script := by
    have hplaces := h.places
    rw [hc.places, hc'.places] at hplaces
    exact List.head_eq_of_cons_eq hplaces
  have hskipFiles : c'.skipFiles = c.skipFiles := by
    rw [hc'.skipFiles, hc.skipFiles, hhas (by decide)]
  have hskipChecks : c'.skipChecks = c.skipChecks := by
    rw [hc'.skipChecks, hc.skipChecks, hhas (by decide)]
  have hnoCache : c'.noCache = c.noCache := by rw [hc'.noCache, hc.noCache, hhas (by decide)]
  rw [← hscript, ← hskipFiles, ← hskipChecks, ← hnoCache,
    ← hcount (by decide) hc.maxWorkers hc'.maxWorkers,
    ← hcount (by decide) hc.parallelThreshold hc'.parallelThreshold,
    ← hpath (by decide) hc.resourcesDir hc'.resourcesDir, ← hpath (by decide) hc.config hc'.config]

/-- An option that says how the report is shown changes nothing else that a check is asked. -/
theorem eq_of_shownOption {before extra after : List String} {c c' : CheckCommand}
    (he : ShownOption extra) (h : parse ("check" :: (before ++ after)) = .ok (.check c))
    (h' : parse ("check" :: (before ++ (extra ++ after))) = .ok (.check c')) :
    c' = { c with verbose := c'.verbose, quiet := c'.quiet, form := c'.form } := by
  obtain ⟨a, a', hsame, hc, hc'⟩ := parse_insert SameBut.steady he.gives h h'
  have hstrict : c'.strict = c.strict := by
    rw [hc'.strict, hc.strict, hsame.has _ (by decide)]
  have heq := hc.eq_of_sameBut hc' hsame fun name hn => List.mem_cons_of_mem _ hn
  rw [hstrict] at heq
  exact heq

/-- The option for strict mode changes nothing else that matters to a check. -/
theorem eq_of_strict {before after : List String} {c c' : CheckCommand}
    (h : parse ("check" :: (before ++ after)) = .ok (.check c))
    (h' : parse ("check" :: (before ++ (["--strict"] ++ after))) = .ok (.check c')) :
    c' = { c with strict := true, verbose := c'.verbose, quiet := c'.quiet, form := c'.form } := by
  obtain ⟨a, a', ⟨hsame, hstrict⟩, hc, hc'⟩ :=
    parse_insert (steady_gained "strict") gives_strict h h'
  have heq := hc.eq_of_sameBut hc' hsame fun name hn => by
    rw [List.mem_singleton.1 hn]
    exact List.mem_cons_self
  rw [hc'.strict, hstrict] at heq
  exact heq

end VideoScript.Command
