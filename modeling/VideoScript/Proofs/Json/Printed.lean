import VideoScript.Json.Parser
import VideoScript.Proofs.Json.Digits
import VideoScript.Proofs.Json.Numbers
import VideoScript.Proofs.Json.WellFormed

/-!
# Reading what was written

`Plain f depth v`: the numbers in `v` are read as `f` says, no object has a key twice, and at most
`depth` arrays and objects stand in one another. The text of such a value over lines reads back as
the value with its numbers changed by `f` (`parse_pretty`). A natural number that fits a word is read
as it is (`Plain.natural`).

Each part of a text is read back with whatever follows it. The characters of a string come back from
their escapes (`readString_escaped`), and so does a number from its text (`readValue_number`): after a
value comes the end of the text, a comma or a new line. A value takes no more fuel than two for each
of its characters (`readValue_pretty`).
-/

set_option autoImplicit false

namespace VideoScript.Json

open Text

/-! ## Strings -/

section
variable {s text rest : List Char}

/-- A short escape reads as the character that it stands for. -/
theorem readString_shortEscape {c e : Char} (he : shortEscape? c = some e)
    (h : readString s = .ok (text, rest)) :
    readString ('\\' :: c :: s) = .ok (e :: text, rest) := by
  have hu : c ≠ 'u' := by
    rintro rfl
    cases he
  rw [readString, he]
  · dsimp only
    rw [h]
    rfl
  · intro a b c' d more hc
    exact absurd hc hu

theorem codeUnit?_hexDigits : ∀ n < 32,
    codeUnit? '0' '0' (hexDigit (n / 16)) (hexDigit (n % 16)) = some n := by
  decide

/-- The digits of a control character read as the character. -/
theorem readString_control {c : Char} (hc : c.toNat < 32) (h : readString s = .ok (text, rest)) :
    readString ('\\' :: 'u' :: '0' :: '0' ::
      hexDigit (c.toNat / 16) :: hexDigit (c.toNat % 16) :: s) = .ok (c :: text, rest) := by
  have hsecond : isSecondHalf c.toNat = false := by
    simp [isSecondHalf]
    omega
  have hfirst : isFirstHalf c.toNat = false := by
    simp [isFirstHalf]
    omega
  rw [readString, codeUnit?_hexDigits _ hc]
  dsimp only
  rw [if_neg (by simp [hsecond]), if_neg (by simp [hfirst]), h, Char.ofNat_toNat]
  rfl

/-- A character without an escape reads as itself. -/
theorem readString_plain {c : Char} (hquote : c ≠ '"') (hslash : c ≠ '\\') (hc : 32 ≤ c.toNat)
    (h : readString s = .ok (text, rest)) : readString (c :: s) = .ok (c :: text, rest) := by
  rw [readString, if_neg hslash, if_neg (Nat.not_lt.2 hc), h]
  · rfl
  · exact hquote
  · exact fun _ _ _ _ _ he => absurd he hslash
  · exact fun _ _ he => absurd he hslash

theorem readString_escaped_append (c : Char) (h : readString s = .ok (text, rest)) :
    readString (escaped c ++ s) = .ok (c :: text, rest) := by
  unfold escaped
  split_ifs with hquote hslash hb hf hn hr ht hcontrol
  · subst hquote
    exact readString_shortEscape rfl h
  · subst hslash
    exact readString_shortEscape rfl h
  · subst hb
    exact readString_shortEscape rfl h
  · subst hf
    exact readString_shortEscape rfl h
  · subst hn
    exact readString_shortEscape rfl h
  · subst hr
    exact readString_shortEscape rfl h
  · subst ht
    exact readString_shortEscape rfl h
  · exact readString_control hcontrol h
  · exact readString_plain hquote hslash (Nat.not_lt.1 hcontrol) h

end

theorem readString_escaped (s rest : List Char) :
    readString (s.flatMap escaped ++ '"' :: rest) = .ok (s, rest) := by
  induction s with
  | nil => rfl
  | cons c s ih =>
    rw [List.flatMap_cons, List.append_assoc]
    exact readString_escaped_append c ih

/-! ## Blanks -/

theorem skipGaps_cons {c : Char} (h : isGap c = false) (s : List Char) :
    skipGaps (c :: s) = c :: s := by
  rw [skipGaps, List.dropWhile_cons_of_neg (by simp [h])]

theorem skipGaps_indentation (level : Nat) (s : List Char) :
    skipGaps (indentation level ++ s) = skipGaps s := by
  have hall : ∀ c ∈ indentation level, isGap c = true := by
    intro c hc
    rcases List.mem_cons.1 hc with rfl | hc
    · rfl
    · rw [List.eq_of_mem_replicate hc]
      rfl
  rw [skipGaps, List.dropWhile_append_of_pos hall]
  rfl

theorem not_isGap_of_isDigit {c : Char} (hc : isDigit c = true) : isGap c = false := by
  cases hgap : isGap c with
  | false => rfl
  | true =>
    simp only [isGap, Bool.or_eq_true, decide_eq_true_eq] at hgap
    rcases hgap with ((rfl | rfl) | rfl) | rfl <;> exact absurd hc (by decide)

theorem readValue_gap {c : Char} (hc : isGap c = true) (fuel depth : Nat) (s : List Char) :
    readValue (fuel + 1) depth (c :: s) = readValue (fuel + 1) depth s := by
  have hs : skipGaps (c :: s) = skipGaps s := List.dropWhile_cons_of_pos hc
  rw [readValue, readValue, hs]

/-- A value that starts with a digit is a number. -/
theorem readValue_digit {c : Char} (hc : isDigit c = true) (fuel depth : Nat) (s : List Char) :
    readValue (fuel + 1) depth (c :: s) =
      (readNumber false (c :: s)).map fun (n, rest) => (number n, rest) := by
  rw [readValue, skipGaps_cons (not_isGap_of_isDigit hc)]
  split
  case h_1 heq => cases heq
  case h_9 heq =>
    cases heq
    rw [if_pos hc]
    cases readNumber false (c :: s) <;> rfl
  all_goals
    next heq =>
      cases heq
      exact absurd hc (by decide)

/-- The text of a number is read as the number that it is as a whole. -/
theorem readValue_number {n : Number} {s rest : List Char} (hs : soleNumber? s = some n)
    (hrest : EndsNumber rest) (fuel depth : Nat) :
    readValue (fuel + 1) depth (s ++ rest) = .ok (number n, rest) := by
  rcases cases_of_soleNumber? hs with ⟨digits, rfl, hdigits⟩ | hdigits
  · have hread := readNumber_append hrest hdigits
    rw [List.cons_append, readValue, skipGaps_cons (by decide)]
    show (readNumber true (digits ++ rest) >>= _) = _
    rw [hread]
    rfl
  · obtain ⟨c, t, rfl, hc⟩ := exists_of_readNumber hdigits
    have hread := readNumber_append hrest hdigits
    rw [List.cons_append] at hread ⊢
    rw [readValue_digit hc, hread]
    rfl

/-! ## Plain values -/

/-- A value that is read as it is written but for its numbers, which are read as `f` says: no object
in it has a key twice, and no more than `depth` arrays and objects stand in one another. -/
inductive Plain (f : Number → Number) : Nat → Json → Prop
  | null {depth : Nat} : Plain f depth .null
  | bool {depth : Nat} {b : Bool} : Plain f depth (.bool b)
  | string {depth : Nat} {s : String} : Plain f depth (.string s)
  | number {depth : Nat} {n : Number} (h : soleNumber? n.text = some (f n)) :
    Plain f depth (.number n)
  | array {depth : Nat} {items : List Json} (h : ∀ v ∈ items, Plain f depth v) :
    Plain f (depth + 1) (.array items)
  | object {depth : Nat} {members : Members} (hk : (members.map (·.1)).Nodup)
    (h : ∀ m ∈ members, Plain f depth m.2) : Plain f (depth + 1) (.object members)

section
variable {f : Number → Number}

/-- What stands before the items of an array after the first. -/
def laterItems (level : Nat) (items : List Json) : List Char :=
  items.flatMap fun v => ',' :: (indentation level ++ prettyChars level v)

/-- A member on a line of its own. -/
def memberLine (level : Nat) (m : String × Json) : List Char :=
  indentation level ++ (quoted m.1 ++ ':' :: ' ' :: prettyChars level m.2)

/-- The members of an object after the first. -/
def laterMembers (level : Nat) (members : Members) : List Char :=
  members.flatMap fun m => ',' :: memberLine level m

/-- A natural number that fits a word is read as it is. -/
theorem Plain.natural {depth n : Nat} (h : n ≤ maxWord) : Plain id depth (.ofNat n) :=
  .number (soleNumber?_whole (by omega) (by omega))

theorem prettyItems_cons (level : Nat) (v : Json) (items : List Json) :
    prettyItems level (v :: items) =
      indentation level ++ (prettyChars level v ++ laterItems level items) := by
  induction items generalizing v with
  | nil => simp [prettyItems, laterItems]
  | cons w items ih =>
    rw [prettyItems, ih]
    · simp [laterItems]
    · simp

theorem prettyMembers_cons (level : Nat) (m : String × Json) (members : Members) :
    prettyMembers level (m :: members) = memberLine level m ++ laterMembers level members := by
  induction members generalizing m with
  | nil => simp [prettyMembers, laterMembers, memberLine]
  | cons m' members ih =>
    rw [prettyMembers, ih]
    · simp [laterMembers, memberLine]
    · simp

/-- The text of a value starts neither with a blank nor with what closes an array. -/
theorem prettyChars_head {depth : Nat} {v : Json} (h : Plain f depth v) (level : Nat) :
    ∃ c more, prettyChars level v = c :: more ∧ isGap c = false ∧ c ≠ ']' := by
  cases h with
  | null => exact ⟨'n', _, rfl, by decide, by decide⟩
  | @bool _ b =>
    cases b with
    | true => exact ⟨'t', _, rfl, by decide, by decide⟩
    | false => exact ⟨'f', _, rfl, by decide, by decide⟩
  | string => exact ⟨'"', _, rfl, by decide, by decide⟩
  | number h =>
    rcases cases_of_soleNumber? h with ⟨digits, hdigits, -⟩ | hread
    · exact ⟨'-', digits, hdigits, by decide, by decide⟩
    · obtain ⟨c, digits, hdigits, hc⟩ := exists_of_readNumber hread
      refine ⟨c, digits, hdigits, not_isGap_of_isDigit hc, ?_⟩
      rintro rfl
      exact absurd hc (by decide)
  | @array _ items =>
    rw [prettyChars]
    split
    · exact ⟨'[', _, rfl, by decide, by decide⟩
    · exact ⟨'[', _, rfl, by decide, by decide⟩
  | @object _ members =>
    rw [prettyChars]
    split
    · exact ⟨'{', _, rfl, by decide, by decide⟩
    · exact ⟨'{', _, rfl, by decide, by decide⟩

theorem endsNumber_comma (rest : List Char) : EndsNumber (',' :: rest) := by
  intro c hc
  cases hc
  decide

theorem endsNumber_indentation (level : Nat) (rest : List Char) :
    EndsNumber (indentation level ++ rest) := by
  intro c hc
  cases hc
  decide

theorem endsNumber_laterItems (level outer : Nat) (items : List Json) (rest : List Char) :
    EndsNumber (laterItems level items ++ (indentation outer ++ rest)) := by
  cases items with
  | nil => exact endsNumber_indentation outer rest
  | cons v items => exact endsNumber_comma _

theorem endsNumber_laterMembers (level outer : Nat) (members : Members) (rest : List Char) :
    EndsNumber (laterMembers level members ++ (indentation outer ++ rest)) := by
  cases members with
  | nil => exact endsNumber_indentation outer rest
  | cons m members => exact endsNumber_comma _

/-! ## Reading values back -/

/-- The text of a value reads back, wherever it stands. -/
def ReadsBack (f : Number → Number) (depth : Nat) (v : Json) : Prop :=
  ∀ level fuel rest, EndsNumber rest → 2 * (prettyChars level v).length ≤ fuel →
    readValue fuel depth (prettyChars level v ++ rest) = .ok (mapNumbers f v, rest)

variable {depth level outer fuel : Nat} {rest : List Char}

/-- Before the first item there is a new line. -/
theorem beforeItem_first {v : Json} (hv : Plain f depth v) (tail : List Char) :
    beforeItem true (indentation level ++ (prettyChars level v ++ tail)) =
      .ok (.next (prettyChars level v ++ tail)) := by
  obtain ⟨c, more, hchars, hgap, hclose⟩ := prettyChars_head hv level
  unfold beforeItem
  rw [skipGaps_indentation, hchars, List.cons_append, skipGaps_cons hgap]
  split
  · next heq => cases heq
  · next heq =>
    cases heq
    exact absurd rfl hclose
  · next heq =>
    cases heq
    rfl

/-- Before a later item there are a comma and a new line. -/
theorem beforeItem_later {v : Json} (hv : Plain f depth v) (tail : List Char) :
    beforeItem false (',' :: (indentation level ++ (prettyChars level v ++ tail))) =
      .ok (.next (prettyChars level v ++ tail)) := by
  obtain ⟨c, more, hchars, hgap, hclose⟩ := prettyChars_head hv level
  unfold beforeItem
  rw [skipGaps_cons (by decide)]
  split
  · next heq => cases heq
  · next heq => exact absurd (List.cons.inj heq).1 (by decide)
  · next heq =>
    cases heq
    rw [if_neg (by decide), if_pos rfl, skipGaps_indentation, hchars, List.cons_append,
      skipGaps_cons hgap]
    split
    · next heq => cases heq
    · next heq =>
      cases heq
      exact absurd rfl hclose
    · rfl

theorem beforeItem_close (first : Bool) :
    beforeItem first (indentation outer ++ ']' :: rest) = .ok (.finished (']' :: rest)) := by
  unfold beforeItem
  rw [skipGaps_indentation, skipGaps_cons (by decide)]
  rfl

/-- An item that reads back is read before the items that follow it. -/
theorem readItems_next {first : Bool} {v : Json} {items : List Json} {s tail : List Char}
    (hbefore : beforeItem first s = .ok (.next (prettyChars level v ++ tail)))
    (hread : ReadsBack f depth v) (htail : EndsNumber tail)
    (hfuel : 2 * (prettyChars level v).length ≤ fuel)
    (hitems : readItems fuel depth false tail = .ok (items, rest)) :
    readItems (fuel + 1) depth first s = .ok (mapNumbers f v :: items, rest) := by
  rw [readItems, hbefore]
  show (readValue fuel depth _ >>= _) = _
  rw [hread level fuel tail htail hfuel]
  show (readItems fuel depth false _ >>= _) = _
  rw [hitems]
  rfl

/-- The items of an array after the first read back. -/
theorem readItems_later {items : List Json} (hp : ∀ v ∈ items, Plain f depth v)
    (hread : ∀ v ∈ items, ReadsBack f depth v)
    (hfuel : 2 * (laterItems level items).length + 1 ≤ fuel) :
    readItems fuel depth false (laterItems level items ++ (indentation outer ++ ']' :: rest)) =
      .ok (mapItems f items, ']' :: rest) := by
  induction items generalizing fuel with
  | nil =>
    obtain ⟨fuel, rfl⟩ : ∃ k, fuel = k + 1 := ⟨fuel - 1, by omega⟩
    rw [laterItems, List.flatMap_nil, List.nil_append, readItems, beforeItem_close]
    rfl
  | cons v items ih =>
    obtain ⟨hv, hp⟩ := List.forall_mem_cons.1 hp
    obtain ⟨hreadv, hread⟩ := List.forall_mem_cons.1 hread
    have htext : laterItems level (v :: items) ++ (indentation outer ++ ']' :: rest) =
        ',' :: (indentation level ++ (prettyChars level v ++
          (laterItems level items ++ (indentation outer ++ ']' :: rest)))) := by
      simp [laterItems]
    -- the comma pays for the step, so the fuel that is left is enough for the items that are left
    have hlen : (prettyChars level v).length + (laterItems level items).length + 1 ≤
        (laterItems level (v :: items)).length := by
      simp [laterItems]
    obtain ⟨fuel, rfl⟩ : ∃ k, fuel = k + 1 := ⟨fuel - 1, by omega⟩
    rw [htext]
    exact readItems_next (beforeItem_later hv _) hreadv (endsNumber_laterItems level outer items _)
      (by omega) (ih hp hread (by omega))

/-- An array reads back when its items do. -/
theorem readsBack_array {items : List Json} (hp : ∀ v ∈ items, Plain f depth v)
    (hread : ∀ v ∈ items, ReadsBack f depth v) : ReadsBack f (depth + 1) (.array items) := by
  intro level fuel rest hrest hfuel
  cases items with
  | nil =>
    obtain ⟨fuel, rfl⟩ : ∃ k, fuel = k + 2 := ⟨fuel - 2, by simp [prettyChars] at hfuel; omega⟩
    rfl
  | cons v items =>
    obtain ⟨hv, hp⟩ := List.forall_mem_cons.1 hp
    obtain ⟨hreadv, hread⟩ := List.forall_mem_cons.1 hread
    let tail := laterItems (level + 1) items ++ (indentation level ++ ']' :: rest)
    have htext : prettyChars level (.array (v :: items)) ++ rest =
        '[' :: (indentation (level + 1) ++ (prettyChars (level + 1) v ++ tail)) := by
      simp [prettyChars, prettyItems_cons, tail]
    have hlen : (prettyChars (level + 1) v).length + (laterItems (level + 1) items).length + 2 ≤
        (prettyChars level (.array (v :: items))).length := by
      simp [prettyChars, prettyItems_cons]
      omega
    obtain ⟨fuel, rfl⟩ : ∃ k, fuel = k + 2 := ⟨fuel - 2, by omega⟩
    have hitems : readItems (fuel + 1) depth true (indentation (level + 1) ++
        (prettyChars (level + 1) v ++ tail)) = .ok (mapItems f (v :: items), ']' :: rest) :=
      readItems_next (beforeItem_first hv _) hreadv
        (endsNumber_laterItems (level + 1) level items _) (by omega)
        (readItems_later hp hread (by omega))
    rw [htext, readValue, skipGaps_cons (by decide)]
    show (readItems (fuel + 1) depth true _ >>= _) = _
    rw [hitems]
    rfl

theorem beforeKey_first (s : List Char) :
    beforeKey true (indentation level ++ '"' :: s) = .ok (.next s) := by
  unfold beforeKey
  rw [skipGaps_indentation, skipGaps_cons (by decide)]
  rfl

theorem beforeKey_later (s : List Char) :
    beforeKey false (',' :: (indentation level ++ '"' :: s)) = .ok (.next s) := by
  unfold beforeKey
  rw [skipGaps_cons (by decide)]
  dsimp only
  rw [if_neg (by decide), if_neg (by decide), if_pos rfl, skipGaps_indentation,
    skipGaps_cons (by decide)]
  rfl

theorem beforeKey_close (first : Bool) :
    beforeKey first (indentation outer ++ '}' :: rest) = .ok (.finished ('}' :: rest)) := by
  unfold beforeKey
  rw [skipGaps_indentation, skipGaps_cons (by decide)]
  rfl

/-- A new member comes after the others. -/
theorem put_of_not_mem {members : Members} {key : String} {value : Json}
    (h : key ∉ members.map (·.1)) : members.put key value = members ++ [(key, value)] := by
  induction members with
  | nil => rfl
  | cons m members ih =>
    obtain ⟨hm, hrest⟩ := List.ne_and_not_mem_of_not_mem_cons h
    rw [Members.put, if_neg (Ne.symm hm), ih hrest]
    rfl

/-- The members of an object read back onto those before them, when the first of them is to be read
as `first` says. -/
theorem readMembers_next {first : Bool} {before : Members} {m : String × Json}
    {s tail : List Char} (hbefore : beforeKey first s = .ok (.next (m.1.toList.flatMap escaped ++
      '"' :: ':' :: ' ' :: (prettyChars level m.2 ++ tail))))
    (hread : ReadsBack f depth m.2) (htail : EndsNumber tail)
    (hfuel : 2 * (prettyChars level m.2).length ≤ fuel) (hpos : 0 < fuel) :
    readMembers (fuel + 1) depth first before s =
      readMembers fuel depth false (before.put m.1 (mapNumbers f m.2)) tail := by
  obtain ⟨fuel, rfl⟩ : ∃ k, fuel = k + 1 := ⟨fuel - 1, by omega⟩
  have hcolon (s : List Char) : readColon (':' :: s) = .ok s := by
    rw [readColon, skipGaps_cons (by decide)]
    rfl
  have hvalue := hread level (fuel + 1) tail htail hfuel
  rw [← readValue_gap (c := ' ') (by decide)] at hvalue
  rw [readMembers, hbefore]
  dsimp only [bind, Except.bind]
  rw [readString_escaped]
  dsimp only
  rw [hcolon]
  dsimp only
  rw [hvalue]
  show readMembers (fuel + 1) depth false
    (before.put (.ofList m.1.toList) (mapNumbers f m.2)) tail = _
  rw [String.ofList_toList]

/-- The members of an object after the first read back. -/
theorem readMembers_later {members before : Members}
    (hk : ((before ++ members).map (·.1)).Nodup) (hread : ∀ m ∈ members, ReadsBack f depth m.2)
    (hfuel : 2 * (laterMembers level members).length + 1 ≤ fuel) :
    readMembers fuel depth false before
      (laterMembers level members ++ (indentation outer ++ '}' :: rest)) =
      .ok (before ++ mapMembers f members, '}' :: rest) := by
  induction members generalizing fuel before with
  | nil =>
    obtain ⟨fuel, rfl⟩ : ∃ k, fuel = k + 1 := ⟨fuel - 1, by omega⟩
    rw [laterMembers, List.flatMap_nil, List.nil_append, readMembers, beforeKey_close, mapMembers,
      List.append_nil]
    rfl
  | cons m members ih =>
    obtain ⟨hreadm, hread⟩ := List.forall_mem_cons.1 hread
    let tail := laterMembers level members ++ (indentation outer ++ '}' :: rest)
    have htext : laterMembers level (m :: members) ++ (indentation outer ++ '}' :: rest) =
        ',' :: (indentation level ++ '"' :: (m.1.toList.flatMap escaped ++
          '"' :: ':' :: ' ' :: (prettyChars level m.2 ++ tail))) := by
      simp [laterMembers, memberLine, quoted, tail]
    have hlen : (prettyChars level m.2).length + (laterMembers level members).length + 1 ≤
        (laterMembers level (m :: members)).length := by
      simp [laterMembers, memberLine]
      omega
    obtain ⟨fuel, rfl⟩ : ∃ k, fuel = k + 1 := ⟨fuel - 1, by omega⟩
    have hnot : m.1 ∉ before.map (·.1) := by
      rw [List.map_append, List.map_cons, List.nodup_append] at hk
      exact fun hm => hk.2.2 _ hm _ List.mem_cons_self rfl
    rw [htext, readMembers_next (beforeKey_later _) hreadm
      (endsNumber_laterMembers level outer members _) (by omega) (by omega), put_of_not_mem hnot,
      ih (by simpa using hk) hread (by omega), List.append_assoc]
    rfl

/-- An object reads back when its members do. -/
theorem readsBack_object {members : Members} (hk : (members.map (·.1)).Nodup)
    (hread : ∀ m ∈ members, ReadsBack f depth m.2) : ReadsBack f (depth + 1) (.object members) := by
  intro level fuel rest hrest hfuel
  cases members with
  | nil =>
    obtain ⟨fuel, rfl⟩ : ∃ k, fuel = k + 2 := ⟨fuel - 2, by simp [prettyChars] at hfuel; omega⟩
    rfl
  | cons m members =>
    obtain ⟨hreadm, hread⟩ := List.forall_mem_cons.1 hread
    let tail := laterMembers (level + 1) members ++ (indentation level ++ '}' :: rest)
    have htext : prettyChars level (.object (m :: members)) ++ rest =
        '{' :: (indentation (level + 1) ++ '"' :: (m.1.toList.flatMap escaped ++
          '"' :: ':' :: ' ' :: (prettyChars (level + 1) m.2 ++ tail))) := by
      simp [prettyChars, prettyMembers_cons, memberLine, quoted, tail]
    have hlen : (prettyChars (level + 1) m.2).length +
        (laterMembers (level + 1) members).length + 2 ≤
        (prettyChars level (.object (m :: members))).length := by
      simp [prettyChars, prettyMembers_cons, memberLine]
      omega
    obtain ⟨fuel, rfl⟩ : ∃ k, fuel = k + 2 := ⟨fuel - 2, by omega⟩
    have hmembers : readMembers (fuel + 1) depth true [] (indentation (level + 1) ++ '"' ::
        (m.1.toList.flatMap escaped ++
          '"' :: ':' :: ' ' :: (prettyChars (level + 1) m.2 ++ tail))) =
        .ok (mapMembers f (m :: members), '}' :: rest) := by
      rw [readMembers_next (beforeKey_first _) hreadm
        (endsNumber_laterMembers (level + 1) level members _) (by omega) (by omega)]
      exact readMembers_later hk hread (by omega)
    rw [htext, readValue, skipGaps_cons (by decide)]
    show (readMembers (fuel + 1) depth true [] _ >>= _) = _
    rw [hmembers]
    rfl

/-- The text of a plain value reads back. -/
theorem readValue_pretty {v : Json} (h : Plain f depth v) : ReadsBack f depth v := by
  induction h with
  | null =>
    intro level fuel rest _ hfuel
    obtain ⟨fuel, rfl⟩ : ∃ k, fuel = k + 1 := ⟨fuel - 1, by simp [prettyChars] at hfuel; omega⟩
    rfl
  | @bool depth b =>
    intro level fuel rest _ hfuel
    obtain ⟨fuel, rfl⟩ : ∃ k, fuel = k + 1 :=
      ⟨fuel - 1, by cases b <;> simp [prettyChars] at hfuel <;> omega⟩
    cases b <;> rfl
  | @string depth s =>
    intro level fuel rest _ hfuel
    obtain ⟨fuel, rfl⟩ : ∃ k, fuel = k + 1 :=
      ⟨fuel - 1, by simp [prettyChars, quoted] at hfuel; omega⟩
    have htext : prettyChars level (.string s) ++ rest =
        '"' :: (s.toList.flatMap escaped ++ '"' :: rest) := by
      simp [prettyChars, quoted]
    rw [htext, readValue, skipGaps_cons (by decide)]
    show (readString _ >>= _) = _
    rw [readString_escaped]
    show Except.ok (Json.string (.ofList s.toList), rest) = _
    rw [String.ofList_toList]
    rfl
  | @number depth n h =>
    intro level fuel rest hrest hfuel
    obtain ⟨c, more, hchars, -⟩ := prettyChars_head (.number h : Plain f depth (.number n)) level
    rw [hchars, List.length_cons] at hfuel
    obtain ⟨fuel, rfl⟩ : ∃ k, fuel = k + 1 := ⟨fuel - 1, by omega⟩
    exact readValue_number h hrest fuel depth
  | array h ih => exact readsBack_array h ih
  | object hk h ih => exact readsBack_object hk ih

/-- The text of a plain value is read as a whole, with blanks after it. -/
theorem parseChars_pretty {v : Json} (h : Plain f depthLimit v) {rest : List Char}
    (hrest : ∀ c ∈ rest, isGap c = true) :
    parseChars (prettyChars 0 v ++ rest) = .ok (mapNumbers f v) := by
  have hends : EndsNumber rest := by
    intro c hc
    have hgap := hrest c (List.mem_of_mem_head? hc)
    simp only [isGap, Bool.or_eq_true, decide_eq_true_eq] at hgap
    rcases hgap with ((rfl | rfl) | rfl) | rfl <;> decide
  have hread := readValue_pretty h 0 (fuelFor (prettyChars 0 v ++ rest)) rest hends
    (by rw [fuelFor, List.length_append]; omega)
  have hend : skipGaps rest = [] := by
    rw [skipGaps, ← List.append_nil rest, List.dropWhile_append_of_pos hrest]
    rfl
  rw [parseChars, hread]
  show (readEnd rest >>= _) = _
  rw [readEnd, hend]
  rfl

/-- **Writing and reading.** The text of a plain value is parsed as the value with its numbers
changed. -/
theorem parse_pretty {v : Json} (h : Plain f depthLimit v) :
    parse v.pretty = .ok (mapNumbers f v) := by
  have hread := parseChars_pretty h (show ∀ c ∈ [], isGap c = true from nofun)
  rw [List.append_nil] at hread
  rw [parse, pretty, String.toList_ofList, hread]
  rfl

end

end VideoScript.Json
