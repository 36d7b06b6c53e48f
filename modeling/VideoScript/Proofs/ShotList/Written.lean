import VideoScript.Proofs.Json.Printed
import VideoScript.Proofs.ShotList.Timeline
import VideoScript.ShotList.File

/-!
# The files of a shot list

The file that a conversion makes is read back as its document (`parse_fileText`). Whole numbers are
read as they are. A float is written with the fewest digits that tell it apart, and it is read in
steps that round, so it may come back as another one; but what it is read as does not depend on
where it stands, so the two shapes of one shot list come back with the same numbers.
-/

set_option autoImplicit false

namespace VideoScript.ShotList

open Json Text

/-! ## Values that read back -/

/-- A value that is read back when its floats are: the other numbers fit a word, no object has a key
twice, and no more than `depth` arrays and objects stand in one another. -/
def Regular (depth : Nat) (v : Json) : Prop :=
  (∀ x, .float x ∈ numbers v → (soleNumber? (Number.float x).text).isSome) →
    Plain Number.reread depth v

variable {depth : Nat}

theorem plain_number {n : Number} (h : (soleNumber? n.text).isSome) :
    Plain Number.reread depth (.number n) := by
  obtain ⟨m, hm⟩ := Option.isSome_iff_exists.1 h
  refine .number ?_
  rw [Number.reread, hm]
  rfl

theorem regular_string (s : String) : Regular depth (.string s) := fun _ => .string

theorem regular_ofNat {n : Nat} (h : n ≤ maxWord) : Regular depth (.ofNat n) := fun _ =>
  plain_number (by rw [soleNumber?_whole (by omega) (by omega)]; rfl)

theorem regular_ofFloat (x : Float) : Regular depth (.ofFloat x) := by
  intro h
  unfold ofFloat at h ⊢
  split
  · next hx =>
    rw [if_pos hx] at h
    exact plain_number (h x (by simp [numbers]))
  · exact .null

theorem regular_seconds (x : Float) : Regular depth (seconds x) := by
  unfold seconds
  split
  · next n hn =>
    split
    · next hsmall =>
      have hlimit : wholeLimit ≤ Nat.pow 2 63 := by decide
      have hword : Nat.pow 2 63 ≤ maxWord := by decide
      intro _
      exact plain_number (by rw [soleNumber?_whole (by omega) (by omega)]; rfl)
    · exact regular_ofFloat x
  · exact regular_ofFloat x

theorem regular_array {items : List Json} (h : ∀ v ∈ items, Regular depth v) :
    Regular (depth + 1) (.array items) := by
  intro hfloats
  refine .array fun v hv => h v hv fun x hx => hfloats x ?_
  rw [numbers, itemNumbers_eq]
  exact List.mem_flatMap.2 ⟨v, hv, hx⟩

/-- Members that are read back when their floats are, with keys among these, in this order. -/
structure Fields (depth : Nat) (keys : List String) (members : Members) : Prop where
  keys : (members.map (·.1)).Sublist keys
  values : ∀ m ∈ members, Regular depth m.2

namespace Fields

variable {keys keys' : List String} {members members' : Members}

theorem nil : Fields depth [] [] := ⟨List.Sublist.refl _, nofun⟩

theorem cons {key : String} {v : Json} (hv : Regular depth v) (h : Fields depth keys members) :
    Fields depth (key :: keys) ((key, v) :: members) :=
  ⟨h.keys.cons_cons key, List.forall_mem_cons.2 ⟨hv, h.values⟩⟩

theorem append (h : Fields depth keys members) (h' : Fields depth keys' members') :
    Fields depth (keys ++ keys') (members ++ members') where
  keys := by
    rw [List.map_append]
    exact h.keys.append h'.keys
  values := List.forall_mem_append.2 ⟨h.values, h'.values⟩

theorem memberIf {α : Type} {key : String} {value : Option α} {f : α → Json}
    (h : ∀ a ∈ value, Regular depth (f a)) : Fields depth [key] (memberIf key (value.map f)) := by
  cases value with
  | none => exact ⟨List.nil_sublist _, nofun⟩
  | some a => exact nil.cons (h a rfl)

theorem object (h : Fields depth keys members) (hnodup : keys.Nodup) :
    Regular (depth + 1) (.object members) := by
  intro hfloats
  refine .object (hnodup.sublist h.keys) fun m hm => h.values m hm fun x hx => hfloats x ?_
  rw [numbers, memberNumbers_eq]
  exact List.mem_flatMap.2 ⟨m, hm, hx⟩

end Fields

/-! ## Documents -/

theorem fields_word (key : String) (kind : Vocabulary) (cell : String) :
    Fields depth [key] (vocabularyMember key kind cell) :=
  .memberIf fun word _ => regular_string word

theorem regular_asset (shot : Shot) (mode : Mode) (dir : String) :
    Regular (depth + 1) (shot.asset mode dir) :=
  ((((Fields.nil.cons (regular_string _)).cons (regular_string _)).append
    (.memberIf fun x _ => regular_seconds x)).append
      (.memberIf fun x _ => regular_seconds x)).object (by decide)

theorem regular_clip (shot : Shot) (mode : Mode) (dir : String) :
    Regular (depth + 2) (shot.clip mode dir) := by
  have htransition : Fields (depth + 1) ["transition"]
      (if shot.transition.isEmpty then [] else [("transition", .object shot.transition)]) := by
    split
    · exact ⟨List.nil_sublist _, nofun⟩
    · exact Fields.nil.cons (((fields_word _ _ _).append (fields_word _ _ _)).object (by decide))
  have hhead : Fields (depth + 1) ["asset", "start", "length"]
      [("asset", shot.asset mode dir), ("start", .string "auto"),
        ("length", seconds shot.length)] :=
    ((Fields.nil.cons (regular_seconds _)).cons (regular_string _)).cons
      (regular_asset shot mode dir)
  exact (((hhead.append htransition).append (fields_word _ _ _)).append
    (fields_word _ _ _)).object (by decide)

theorem regular_soundtrack (s : Soundtrack) (mode : Mode) (dir : String) :
    Regular (depth + 1) (s.json mode dir) :=
  (((Fields.nil.cons (regular_string _)).cons (regular_string _)).append
    (.memberIf fun x _ => regular_seconds x)).object (by decide)

namespace Plan

variable {plan : Plan}

theorem regular_timeline (plan : Plan) (mode : Mode) :
    Regular (depth + 6) (plan.timeline mode) := by
  have hclips : Regular (depth + 3)
      (.array (plan.shots.map fun p => p.shot.clip mode plan.resourcesDir)) :=
    regular_array (List.forall_mem_map.2 fun p _ => regular_clip p.shot mode plan.resourcesDir)
  have htracks : Regular (depth + 5) (.array [.object
      [("clips", .array (plan.shots.map fun p => p.shot.clip mode plan.resourcesDir))]]) :=
    regular_array (List.forall_mem_singleton.2 ((Fields.nil.cons hclips).object (by decide)))
  exact (((Fields.memberIf fun s _ => regular_soundtrack s mode plan.resourcesDir).append
    (.memberIf fun text _ => regular_string text)).append
      (Fields.nil.cons htracks)).object (by decide)

/-- The numbers of the headers fit a word. -/
def Bounded (plan : Plan) : Prop :=
  (∀ n ∈ plan.rate, n ≤ maxHeaderNumber) ∧ ∀ n ∈ plan.capture, n ≤ maxHeaderNumber

theorem regular_output (h : plan.Bounded) : Regular (depth + 2) plan.output := by
  have hword : maxHeaderNumber ≤ maxWord := by decide
  have hnumber {n : Nat} (hn : n ≤ maxHeaderNumber) {depth : Nat} : Regular depth (.ofNat n) :=
    regular_ofNat (Nat.le_trans hn hword)
  exact (((((Fields.nil.cons (regular_string _)).append
    (.memberIf fun text _ => regular_string text)).append
      (.memberIf fun text _ => regular_string text)).append
        (.memberIf fun n hn => hnumber (h.1 n hn))).append
          (.memberIf fun n hn => (Fields.nil.cons (hnumber (h.2 n hn))).object (by decide))).object
            (by decide)

theorem regular_merge (plan : Plan) : Regular (depth + 2) plan.merge :=
  regular_array (List.forall_mem_map.2 fun _ _ =>
    ((Fields.nil.cons (regular_string _)).cons (regular_string _)).object (by decide))

theorem regular_document (h : plan.Bounded) (mode : Mode) :
    Regular (depth + 8) (plan.document mode) := by
  cases mode with
  | legacy =>
    exact ((((Fields.nil.cons (regular_output h)).cons (plan.regular_timeline .legacy)).cons
      (regular_string _)).cons (regular_string _)).object (by decide)
  | template =>
    have htemplate : Regular (depth + 7)
        (.object [("timeline", plan.timeline .template)]) :=
      (Fields.nil.cons (plan.regular_timeline .template)).object (by decide)
    exact (((((Fields.nil.cons plan.regular_merge).cons (regular_output h)).cons htemplate).cons
      (regular_string _)).cons (regular_string _)).object (by decide)

/-- The shapes of a document have the same numbers. -/
theorem numbers_document (plan : Plan) (mode : Mode) :
    numbers (plan.document mode) = numbers (plan.document .legacy) := by
  cases mode with
  | legacy => rfl
  | template =>
    have hentries : plan.distinctMedia.flatMap (fun path => numbers (openEntry path)) = [] :=
      List.flatMap_eq_nil_iff.2 fun _ _ => rfl
    have htimeline : numbers (plan.timeline .template) = numbers (plan.timeline .legacy) := by
      rw [timeline_template plan .root, numbers_rewriteAt]
    simp [document, numbers, memberNumbers, htimeline, merge, itemNumbers_eq, List.flatMap_map,
      hentries]

theorem le_of_natural? {limit n : Nat} {s : List Char} (h : natural? limit s = some n) :
    n ≤ limit := by
  unfold natural? at h
  extract_lets digits value at h
  split_ifs at h with hdigits hle
  obtain rfl := Option.some.inj h
  exact hle

theorem le_of_numberOfHeader {hs : List Header} {key : String} {limit : Nat} {value : Option Nat}
    (h : numberOfHeader hs key (natural? limit) = .ok value) : ∀ n ∈ value, n ≤ limit := by
  unfold numberOfHeader at h
  split at h
  · cases h
    exact nofun
  · split at h
    · next n hread =>
      cases h
      rintro n ⟨⟩
      exact le_of_natural? hread
    · cases h

theorem bounded_of_readPlan {text : List Char} (h : readPlan text = .ok plan) : plan.Bounded := by
  unfold readPlan at h
  dsimp only at h
  split at h
  · split at h
    · obtain ⟨soundtrack, -, h⟩ := bind_eq_ok h
      obtain ⟨rate, hrate, h⟩ := bind_eq_ok h
      obtain ⟨capture, hcapture, h⟩ := bind_eq_ok h
      cases h
      exact ⟨le_of_numberOfHeader hrate, le_of_numberOfHeader hcapture⟩
    · cases h
  · cases h

end Plan

/-! ## Files -/

/-- The text of a document with a new line at its end is read as the document. -/
theorem parse_fileText_of_plain {c : Conversion} (h : Plain Number.reread depthLimit c.document) :
    parse c.fileText = .ok (mapNumbers Number.reread c.document) := by
  have hread := parseChars_pretty h (show ∀ c ∈ ['\n'], isGap c = true by simp [isGap])
  rw [parse, Conversion.fileText, String.toList_append, pretty, String.toList_ofList]
  show (parseChars (prettyChars 0 c.document ++ ['\n'])).mapError _ = _
  rw [hread]
  rfl

/-- **The files of a shot list.** When the floats of a shot list are written as numbers, the files
of its two shapes are read as their documents, with one change of the numbers, which leaves whole
numbers that fit a word alone (`reread_whole`). -/
theorem parse_fileText {text : String} {mode : Mode} {legacy c : Conversion}
    (hl : convert text .legacy = .ok legacy) (hc : convert text mode = .ok c)
    (hfloats : ∀ x, .float x ∈ numbers legacy.document →
      (soleNumber? (Number.float x).text).isSome) :
    parse c.fileText = .ok (mapNumbers Number.reread c.document) := by
  obtain ⟨plan, hplan, rfl⟩ := readPlan_of_convert hl
  obtain ⟨plan', hplan', rfl⟩ := readPlan_of_convert hc
  obtain rfl : plan = plan' := Except.ok.inj (hplan.symm.trans hplan')
  have hregular : Regular depthLimit (plan.document mode) :=
    plan.regular_document (Plan.bounded_of_readPlan hplan) mode
  refine parse_fileText_of_plain (hregular fun x hx => hfloats x ?_)
  rw [Plan.numbers_document] at hx
  exact hx

end VideoScript.ShotList
