import VideoScript.Proofs.Json.Skipping

/-!
# Passing over what can be read

What can be read can also be passed over, up to the same place: strings, numbers and whole values
(`skips_of_readValue`), and whatever a decoder takes (`Passes`). So where a member ends does not
depend on whether the record knows it.

* `skipString_of_readString`, `skipNumber_of_readNumber`: the parts of a text.
* `skipsItems_next`, `skipsMembers_next`: one item or member, and then the others.
* `passes_option`, `passes_choice`, `passes_record`: one lemma for each kind of decoder.
-/

set_option autoImplicit false

namespace VideoScript.Json

open Text

/-! ## Strings -/

theorem faultAfterFirstHalf_ne_ok {α : Type} {s : List Char} {a : α} :
    faultAfterFirstHalf s ≠ .ok a := by
  unfold faultAfterFirstHalf
  split
  · exact nofun
  · exact nofun
  · exact faultInDigits_ne_ok
  · exact nofun
  · exact nofun

/-- A string that is read can be passed over. -/
theorem skipString_of_readString (s : List Char) {text rest : List Char}
    (h : readString s = .ok (text, rest)) : skipString s = .ok rest := by
  fun_induction readString s generalizing text rest with
  | case2 rest =>
    cases h
    rfl
  | case3 => exact absurd h faultInDigits_ne_ok
  | case5 => exact absurd h faultInDigits_ne_ok
  | case8 => exact absurd h faultAfterFirstHalf_ne_ok
  | case11 => exact absurd h faultInDigits_ne_ok
  | case6 a b c d first hfirst _ _ e f g i more second hsecond _ ih =>
    -- both halves of a pair are passed over, one after the other
    obtain ⟨⟨text, left⟩, hmore, h⟩ := bind_eq_ok h
    cases h
    rw [skipString, if_pos (by rw [hfirst]; rfl), skipString, if_pos (by rw [hsecond]; rfl)]
    exact ih hmore
  | case9 a b c d more unit hunit _ _ ih =>
    obtain ⟨⟨text, left⟩, hmore, h⟩ := bind_eq_ok h
    cases h
    rw [skipString, if_pos (by rw [hunit]; rfl)]
    exact ih hmore
  | case10 c more hnot e hescape ih =>
    obtain ⟨⟨text, left⟩, hmore, h⟩ := bind_eq_ok h
    cases h
    rw [skipString, if_pos (by rw [hescape]; rfl)]
    · exact ih hmore
    · exact hnot
  | case15 c more hquote hunit hescape hslash hcontrol ih =>
    obtain ⟨⟨text, left⟩, hmore, h⟩ := bind_eq_ok h
    cases h
    rw [skipString, if_neg hslash, if_neg hcontrol]
    · exact ih hmore
    · exact hquote
    · exact hunit
    · exact hescape
  | case1 | case4 | case7 | case12 | case13 | case14 => cases h

/-- A key that is read can be passed over, with the colon after it. -/
theorem skipKey_of_readString {s key afterKey value : List Char}
    (hkey : readString s = .ok (key, afterKey)) (hcolon : readColon afterKey = .ok value) :
    skipKey s = .ok value := by
  rw [skipKey, skipString_of_readString s hkey]
  exact hcolon

/-! ## Numbers -/

section
variable {negative : Bool} {significand : Nat} {exponent : Int} {s rest : List Char} {n : Number}

/-- Digits that do not fit the significand are left, and nothing but digits is taken. -/
theorem dropWhile_takeDigits (significand : Nat) (s : List Char) :
    (takeDigits significand s).2.dropWhile isDigit = s.dropWhile isDigit := by
  induction s generalizing significand with
  | nil => rfl
  | cons c s ih =>
    rw [takeDigits]
    split
    · next hc =>
      dsimp only
      split
      · rw [ih, List.dropWhile_cons_of_pos hc]
      · rfl
    · rfl

/-- After the digits of an exponent, or after one that is too many, no other digits are passed. -/
theorem dropWhile_readExponentDigits (exponent : Nat) (s : List Char) :
    (readExponentDigits exponent s).2.dropWhile isDigit = s.dropWhile isDigit ∧
      ∀ e rest, readExponentDigits exponent s = (some e, rest) → rest = s.dropWhile isDigit := by
  induction s generalizing exponent with
  | nil => exact ⟨rfl, fun _ _ h => by cases h; rfl⟩
  | cons c s ih =>
    rw [readExponentDigits]
    split
    · next hc =>
      dsimp only
      split
      · rw [List.dropWhile_cons_of_pos hc]
        exact ih _
      · exact ⟨by rw [List.dropWhile_cons_of_pos hc], fun _ _ h => by cases h⟩
    · next hc =>
      refine ⟨rfl, fun _ _ h => ?_⟩
      cases h
      rw [List.dropWhile_cons_of_neg hc]

theorem rest_of_scaledNumber {left : List Char}
    (h : scaledNumber negative significand exponent left = .ok (n, rest)) : rest = left := by
  unfold scaledNumber at h
  split at h
  · cases h
    rfl
  · cases h

/-- The digits of an exponent, after its sign. -/
def exponentDigits (s : List Char) : List Char :=
  match s with
  | '+' :: rest => rest
  | '-' :: rest => rest
  | _ => s

theorem skipExponent_eq_ok {c : Char} {more : List Char} (hs : exponentDigits s = c :: more)
    (hc : isDigit c = true) : skipExponent s = .ok (more.dropWhile isDigit) := by
  unfold skipExponent
  extract_lets digits
  have hdigits : digits = c :: more := hs
  rw [hdigits]
  exact if_pos hc

theorem skipExponent_of_readExponent
    (h : readExponent negative significand exponent s = .ok (n, rest)) :
    skipExponent s = .ok rest := by
  have hsign : (match s with
      | '+' :: rest => (false, rest)
      | '-' :: rest => (true, rest)
      | _ => (false, s)).2 = exponentDigits s := by
    clear h
    unfold exponentDigits
    split <;> rfl
  unfold readExponent at h
  dsimp only at h
  split at h
  · cases h
  · next c more hdigits =>
    obtain ⟨hover, hexact⟩ := dropWhile_readExponentDigits (digitValue c) more
    split at h
    · next hc =>
      rw [skipExponent_eq_ok (hsign.symm.trans hdigits) hc]
      split at h
      · next e left he => rw [rest_of_scaledNumber h, hexact e left he]
      · next left he =>
        rw [he] at hover
        split at h
        all_goals
          split at h
          · cases h
          · cases h
            rw [← hover]
    · cases h

theorem skipFloatEnd_of_readFloatEnd
    (h : readFloatEnd negative significand exponent s = .ok (n, rest)) :
    skipFloatEnd s = .ok rest := by
  unfold readFloatEnd at h
  split at h
  · next c more =>
    split at h
    · next hc =>
      rw [skipFloatEnd, if_pos hc]
      exact skipExponent_of_readExponent h
    · next hc => rw [skipFloatEnd, if_neg hc, rest_of_scaledNumber h]
  · rw [skipFloatEnd, rest_of_scaledNumber h]

theorem skipNumberEnd_of_readFraction
    (h : readFraction negative significand exponent s = .ok (n, rest)) :
    skipNumberEnd ('.' :: s) = .ok rest := by
  unfold readFraction at h
  dsimp only at h
  cases s with
  | nil => cases h
  | cons c more =>
    dsimp only at h
    split at h
    · next hc =>
      have hskip := skipFloatEnd_of_readFloatEnd h
      rw [dropWhile_takeDigits, List.dropWhile_cons_of_pos hc] at hskip
      show (if isDigit c then skipFloatEnd (more.dropWhile isDigit) else _) = _
      rw [if_pos hc, hskip]
    · cases h

/-- What begins with no point is no fraction. -/
theorem skipNumberEnd_of_ne (h : ∀ t, s ≠ '.' :: t) : skipNumberEnd s = skipFloatEnd s := by
  unfold skipNumberEnd
  split
  · next t => exact absurd rfl (h _)
  · rfl

theorem skipNumberEnd_of_readNumberEnd (h : readNumberEnd negative significand s = .ok (n, rest)) :
    skipNumberEnd (s.dropWhile isDigit) = .ok rest := by
  unfold readNumberEnd at h
  split at h
  · exact skipNumberEnd_of_readFraction h
  · next c more hdot =>
    have hne : ∀ t, c :: more ≠ '.' :: t := fun t ht => hdot (List.cons.inj ht).1
    split at h
    · next hc =>
      have hdigit : isDigit c = false := by rcases hc with rfl | rfl <;> decide
      rw [List.dropWhile_cons_of_neg (by simp [hdigit]), skipNumberEnd_of_ne hne, skipFloatEnd,
        if_pos hc]
      exact skipExponent_of_readExponent h
    · next hc =>
      split at h
      · next hdigit =>
        split at h
        · next t ht =>
          rw [ht]
          exact skipNumberEnd_of_readFraction h
        · next hother =>
          rw [skipNumberEnd_of_ne hother]
          exact skipFloatEnd_of_readFloatEnd h
      · next hdigit =>
        cases h
        rw [List.dropWhile_cons_of_neg hdigit, skipNumberEnd_of_ne hne, skipFloatEnd, if_neg hc]
  · cases h
    rfl

/-- A number that is read can be passed over. -/
theorem skipNumber_of_readNumber (h : readNumber negative s = .ok (n, rest)) :
    skipNumber s = .ok rest := by
  unfold readNumber at h
  split at h
  · cases h
  · split at h
    · next c more =>
      split at h
      · cases h
      · next hc =>
        have hskip := skipNumberEnd_of_readNumberEnd h
        rw [List.dropWhile_cons_of_neg hc] at hskip
        show (if isDigit c then _ else skipNumberEnd (c :: more)) = _
        rw [if_neg hc, hskip]
    · exact skipNumberEnd_of_readNumberEnd h
  · next c more hzero =>
    split at h
    · next hc =>
      have h : readNumberEnd negative (takeDigits 0 (c :: more)).1 (takeDigits 0 (c :: more)).2 =
        .ok (n, rest) := h
      have hskip := skipNumberEnd_of_readNumberEnd h
      rw [dropWhile_takeDigits, List.dropWhile_cons_of_pos hc] at hskip
      rw [skipNumber, if_pos hc, hskip]
      exact hzero
    · cases h

end

/-! ## Lists and objects -/

section
variable {first : Bool} {s rest r r' : List Char}

/-- The rest of a list can be passed over, its closing bracket included. -/
def SkipsItems (first : Bool) (s rest : List Char) : Prop :=
  ∃ fuel, skipItems fuel first s = .ok rest

/-- The rest of an object can be passed over, its closing brace included. -/
def SkipsMembers (first : Bool) (s rest : List Char) : Prop :=
  ∃ fuel, skipMembers fuel first s = .ok rest

theorem beforeItem_finished (h : beforeItem first s = .ok (.finished r)) :
    ∃ t, skipGaps s = ']' :: t ∧ r = ']' :: t := by
  unfold beforeItem at h
  split at h
  · cases h
  · next t hs =>
    cases h
    exact ⟨t, hs, rfl⟩
  · split at h
    · cases h
    · split at h
      · split at h <;> cases h
      · cases h

/-- What stands before an item: nothing before the first, a comma before any other. -/
theorem beforeItem_next (h : beforeItem first s = .ok (.next r)) :
    (first = true ∧ skipGaps s = r ∧ ∃ c t, r = c :: t ∧ c ≠ ']') ∨
      (first = false ∧ ∃ t, skipGaps s = ',' :: t ∧ r = skipGaps t) := by
  unfold beforeItem at h
  split at h
  · cases h
  · cases h
  · next c t hclose hs =>
    split at h
    · next hfirst =>
      cases h
      exact .inl ⟨hfirst, hs, c, t, rfl, hclose⟩
    · next hfirst =>
      split at h
      · next hcomma =>
        split at h
        · cases h
        · cases h
        · cases h
          exact .inr ⟨Bool.eq_false_iff.2 hfirst, t, hcomma ▸ hs, rfl⟩
      · cases h

theorem beforeKey_finished (h : beforeKey first s = .ok (.finished r)) :
    ∃ t, skipGaps s = '}' :: t ∧ r = '}' :: t := by
  unfold beforeKey at h
  split at h
  · cases h
  · next c t hs =>
    split at h
    · next hc =>
      cases h
      exact ⟨t, hc ▸ hs, hc ▸ rfl⟩
    · split at h
      · split at h <;> cases h
      · split at h
        · split at h
          · cases h
          · split at h
            · cases h
            · split at h <;> cases h
        · cases h

/-- What stands before a key: nothing before the first, a comma before any other. -/
theorem beforeKey_next (h : beforeKey first s = .ok (.next r)) :
    (first = true ∧ skipGaps s = '"' :: r) ∨
      (first = false ∧ ∃ t, skipGaps s = ',' :: t ∧ skipGaps t = '"' :: r) := by
  unfold beforeKey at h
  split at h
  · cases h
  · next c t hs =>
    split at h
    · cases h
    · split at h
      · next hfirst =>
        split at h
        · next hc =>
          cases h
          exact .inl ⟨hfirst, hc ▸ hs⟩
        · cases h
      · next hfirst =>
        split at h
        · next hcomma =>
          split at h
          · cases h
          · next d more ht =>
            split at h
            · next hd =>
              cases h
              exact .inr ⟨Bool.eq_false_iff.2 hfirst, t, hcomma ▸ hs, hd ▸ ht⟩
            · split at h <;> cases h
        · cases h

theorem skipsItems_close (h : skipGaps s = ']' :: rest) : SkipsItems first s rest :=
  ⟨1, by rw [skipItems, h]; rfl⟩

theorem skipsMembers_close (h : skipGaps s = '}' :: rest) : SkipsMembers first s rest :=
  ⟨1, by rw [skipMembers, h]; rfl⟩

theorem skipItems_first {fuel : Nat} {c : Char} {t : List Char} (hs : skipGaps s = c :: t)
    (hc : c ≠ ']') :
    skipItems (fuel + 1) true s = skipValue fuel (c :: t) >>= skipItems fuel false := by
  rw [skipItems, hs]
  split
  · next h => cases h
  · next h => exact absurd (List.cons.inj h).1 hc
  · next h =>
    cases h
    rfl

/-- An item and those after it are passed over with one amount of fuel. -/
theorem exists_fuel_item (hr : Skips r r') (hrest : SkipsItems false r' rest) :
    ∃ fuel, skipValue fuel r >>= skipItems fuel false = .ok rest := by
  obtain ⟨fuel, hrest⟩ := hrest
  obtain ⟨fuel', hr⟩ := hr
  refine ⟨max fuel fuel', ?_⟩
  rw [skipValue_mono hr (Nat.le_max_right fuel fuel')]
  exact skipItems_mono hrest (Nat.le_max_left fuel fuel')

/-- Passing over an item and then over the others. -/
theorem skipsItems_next (h : beforeItem first s = .ok (.next r)) (hr : Skips r r')
    (hrest : SkipsItems false r' rest) : SkipsItems first s rest := by
  rcases beforeItem_next h with ⟨rfl, hs, c, t, rfl, hc⟩ | ⟨rfl, t, hs, rfl⟩
  · obtain ⟨fuel, hitem⟩ := exists_fuel_item hr hrest
    exact ⟨fuel + 1, (skipItems_first hs hc).trans hitem⟩
  · obtain ⟨fuel, hitem⟩ := exists_fuel_item (skips_skipGaps.1 hr) hrest
    exact ⟨fuel + 1, by rw [skipItems, hs]; exact hitem⟩

/-- A member and those after it are passed over with one amount of fuel. -/
theorem exists_fuel_member {value : List Char} (hkey : skipKey r = .ok value) (hr : Skips value r')
    (hrest : SkipsMembers false r' rest) :
    ∃ fuel, (skipKey r >>= fun r => skipValue fuel r >>= fun r => skipMembers fuel false r) =
      .ok rest := by
  obtain ⟨fuel, hrest⟩ := hrest
  obtain ⟨fuel', hr⟩ := hr
  refine ⟨max fuel fuel', ?_⟩
  rw [hkey]
  show (skipValue (max fuel fuel') value >>= fun r => skipMembers (max fuel fuel') false r) = _
  rw [skipValue_mono hr (Nat.le_max_right fuel fuel')]
  exact skipMembers_mono hrest (Nat.le_max_left fuel fuel')

/-- Passing over the first member and then over the others. -/
theorem skipsMembers_first {value : List Char} (hs : skipGaps s = '"' :: r)
    (hkey : skipKey r = .ok value) (hr : Skips value r') (hrest : SkipsMembers false r' rest) :
    SkipsMembers true s rest := by
  obtain ⟨fuel, hmember⟩ := exists_fuel_member hkey hr hrest
  refine ⟨fuel + 1, ?_⟩
  rw [skipMembers, hs]
  exact hmember

/-- Passing over a member and then over the others. -/
theorem skipsMembers_next {value : List Char} (h : beforeKey first s = .ok (.next r))
    (hkey : skipKey r = .ok value) (hr : Skips value r') (hrest : SkipsMembers false r' rest) :
    SkipsMembers first s rest := by
  rcases beforeKey_next h with ⟨rfl, hs⟩ | ⟨rfl, t, hs, ht⟩
  · exact skipsMembers_first hs hkey hr hrest
  · obtain ⟨fuel, hmember⟩ := exists_fuel_member hkey hr hrest
    refine ⟨fuel + 1, ?_⟩
    rw [skipMembers, hs]
    dsimp only
    rw [if_neg (by decide), if_neg (by decide), if_pos rfl, ht]
    exact hmember

theorem readClose_eq_ok {close : Char} (h : readClose close s = .ok rest) :
    skipGaps s = close :: rest := by
  unfold readClose at h
  split at h
  · cases h
  · next c t hs =>
    split at h
    · next hc =>
      cases h
      rw [hs, hc]
    · split at h
      · split at h
        · split at h <;> cases h
        · cases h
      · cases h

/-- Only what comes after the blanks counts. -/
theorem skipsItems_congr {s' : List Char} (h : skipGaps s = skipGaps s')
    (hs : SkipsItems first s rest) : SkipsItems first s' rest := by
  obtain ⟨fuel, hs⟩ := hs
  cases fuel with
  | zero => cases hs
  | succ fuel =>
    refine ⟨fuel + 1, ?_⟩
    rw [skipItems] at hs ⊢
    rwa [← h]

end

/-! ## Values -/

section
variable {s rest : List Char}

/-- One step passes over what begins with a quotation mark, if it is a string. -/
theorem skips_string {more : List Char} (hs : skipGaps s = '"' :: more)
    (h : skipString more = .ok rest) : Skips s rest :=
  ⟨1, by rw [skipValue, hs]; exact h⟩

theorem skips_number {c : Char} {more : List Char} {n : Number} (hs : skipGaps s = c :: more)
    (hc : isDigit c = true) (h : readNumber false (c :: more) = .ok (n, rest)) : Skips s rest := by
  refine ⟨1, ?_⟩
  rw [skipValue, hs]
  split <;> rename_i heq <;> cases heq
  -- no digit is the first of another kind of value
  any_goals contradiction
  rw [if_pos hc]
  exact skipNumber_of_readNumber h

theorem skips_list {more : List Char} (hs : skipGaps s = '[' :: more)
    (h : SkipsItems true more rest) : Skips s rest := by
  obtain ⟨fuel, h⟩ := h
  exact ⟨fuel + 1, by rw [skipValue, hs]; exact h⟩

theorem skips_object {more : List Char} (hs : skipGaps s = '{' :: more)
    (h : SkipsMembers true more rest) : Skips s rest := by
  obtain ⟨fuel, h⟩ := h
  exact ⟨fuel + 1, by rw [skipValue, hs]; exact h⟩

/-- Whether a letter is the first of a word, and the letters after it. -/
inductive IsWord : Char → List Char → Prop
  | null : IsWord 'n' "ull".toList
  | isTrue : IsWord 't' "rue".toList
  | isFalse : IsWord 'f' "alse".toList

theorem skips_word {c : Char} {word more : List Char} {u : Unit} (hw : IsWord c word)
    (hs : skipGaps s = c :: more) (h : readWord word more = .ok (u, rest)) : Skips s rest := by
  refine ⟨1, ?_⟩
  rw [skipValue, hs]
  cases hw <;> exact congrArg (Except.map Prod.snd) h

end

/-- What the three readers give can be passed over, for an amount of fuel. -/
structure ReadsPass (fuel : Nat) : Prop where
  value : ∀ depth s v rest, readValue fuel depth s = .ok (v, rest) → Skips s rest
  items : ∀ depth first s vs rest, readItems fuel depth first s = .ok (vs, rest) →
    SkipsItems first s (rest.drop 1)
  members : ∀ depth first before s ms rest,
    readMembers fuel depth first before s = .ok (ms, rest) → SkipsMembers first s (rest.drop 1)

section
variable {fuel depth : Nat} {first : Bool} {s rest : List Char}

theorem ReadsPass.value_succ {v : Json} (ih : ReadsPass fuel)
    (h : readValue (fuel + 1) depth s = .ok (v, rest)) : Skips s rest := by
  rw [readValue] at h
  split at h
  · cases h
  · next hs =>
    obtain ⟨⟨text, left⟩, htext, h⟩ := bind_eq_ok h
    cases h
    exact skips_string hs (skipString_of_readString _ htext)
  · next hs =>
    split at h
    · cases h
    · obtain ⟨⟨items, left⟩, hitems, h⟩ := bind_eq_ok h
      cases h
      exact skips_list hs (ih.items _ _ _ _ _ hitems)
  · next hs =>
    split at h
    · cases h
    · obtain ⟨⟨members, left⟩, hmembers, h⟩ := bind_eq_ok h
      cases h
      exact skips_object hs (ih.members _ _ _ _ _ _ hmembers)
  · next hs =>
    obtain ⟨⟨_, left⟩, hword, h⟩ := bind_eq_ok h
    cases h
    exact skips_word .null hs hword
  · next hs =>
    obtain ⟨⟨_, left⟩, hword, h⟩ := bind_eq_ok h
    cases h
    exact skips_word .isTrue hs hword
  · next hs =>
    obtain ⟨⟨_, left⟩, hword, h⟩ := bind_eq_ok h
    cases h
    exact skips_word .isFalse hs hword
  · next hs =>
    obtain ⟨⟨n, left⟩, hnumber, h⟩ := bind_eq_ok h
    cases h
    exact ⟨1, by rw [skipValue, hs]; exact skipNumber_of_readNumber hnumber⟩
  · next c more hq hb hc hn ht hf hm hs =>
    split at h
    · next hdigit =>
      obtain ⟨⟨n, left⟩, hnumber, h⟩ := bind_eq_ok h
      cases h
      exact skips_number hs hdigit hnumber
    · cases h

theorem ReadsPass.items_succ {vs : List Json} (ih : ReadsPass fuel)
    (h : readItems (fuel + 1) depth first s = .ok (vs, rest)) :
    SkipsItems first s (rest.drop 1) := by
  rw [readItems] at h
  obtain ⟨continuation, hbefore, h⟩ := bind_eq_ok h
  cases continuation with
  | finished r =>
    cases h
    obtain ⟨t, hs, rfl⟩ := beforeItem_finished hbefore
    exact skipsItems_close hs
  | next r =>
    obtain ⟨⟨v, r1⟩, hv, h⟩ := bind_eq_ok h
    obtain ⟨⟨vs, r2⟩, hvs, h⟩ := bind_eq_ok h
    cases h
    exact skipsItems_next hbefore (ih.value _ _ _ _ hv) (ih.items _ _ _ _ _ hvs)

theorem ReadsPass.members_succ {before ms : Members} (ih : ReadsPass fuel)
    (h : readMembers (fuel + 1) depth first before s = .ok (ms, rest)) :
    SkipsMembers first s (rest.drop 1) := by
  rw [readMembers] at h
  obtain ⟨continuation, hbefore, h⟩ := bind_eq_ok h
  cases continuation with
  | finished r =>
    cases h
    obtain ⟨t, hs, rfl⟩ := beforeKey_finished hbefore
    exact skipsMembers_close hs
  | next r =>
    obtain ⟨⟨key, r1⟩, hkey, h⟩ := bind_eq_ok h
    obtain ⟨r2, hcolon, h⟩ := bind_eq_ok h
    obtain ⟨⟨v, r3⟩, hv, h⟩ := bind_eq_ok h
    exact skipsMembers_next hbefore (skipKey_of_readString hkey hcolon)
      (ih.value _ _ _ _ hv) (ih.members _ _ _ _ _ _ h)

end

theorem readsPass : ∀ fuel, ReadsPass fuel
  | 0 => by
    refine ⟨fun depth s v rest h => ?_, fun depth first s vs rest h => ?_,
      fun depth first before s ms rest h => ?_⟩ <;> cases h
  | fuel + 1 =>
    have ih := readsPass fuel
    ⟨fun _ _ _ _ h => ih.value_succ h, fun _ _ _ _ _ h => ih.items_succ h,
      fun _ _ _ _ _ _ h => ih.members_succ h⟩

/-- A value that is read can be passed over. -/
theorem skips_of_readValue {fuel depth : Nat} {s rest : List Char} {v : Json}
    (h : readValue fuel depth s = .ok (v, rest)) : Skips s rest :=
  (readsPass fuel).value depth s v rest h

/-! ## Scalars -/

/-- What a decoder reads can be passed over, up to the same place. -/
def Passes {α : Type} (decoder : Decoder α) : Prop :=
  ∀ depth s a rest, decoder depth s = .ok (a, rest) → Skips s rest

theorem refuseType_ne_ok {α : Type} {expected : String} {s : List Char} {a : α} :
    refuseType expected s ≠ .ok a := by
  intro h
  unfold refuseType at h
  dsimp only at h
  split at h
  any_goals
    obtain ⟨_, -, h⟩ := bind_eq_ok h
    cases h
  · cases h
  · cases h
  · cases h
  · split at h
    · obtain ⟨_, -, h⟩ := bind_eq_ok h
      cases h
    · cases h

theorem valueStart_eq_ok {s rest : List Char} (h : valueStart s = .ok rest) :
    skipGaps s = rest := by
  unfold valueStart at h
  split at h
  · cases h
  · cases h
    rfl

theorem passes_bool : Passes boolDecoder := by
  intro depth s b rest h
  unfold boolDecoder at h
  obtain ⟨start, hstart, h⟩ := bind_eq_ok h
  have hs := valueStart_eq_ok hstart
  split at h
  · obtain ⟨⟨_, left⟩, hword, h⟩ := bind_eq_ok h
    cases h
    exact skips_word .isTrue hs hword
  · obtain ⟨⟨_, left⟩, hword, h⟩ := bind_eq_ok h
    cases h
    exact skips_word .isFalse hs hword
  · exact absurd h refuseType_ne_ok

theorem stringDecoder_eq_ok {α : Type} {expected : String} {make : String → Except Mismatch α}
    {depth : Nat} {s rest : List Char} {a : α}
    (h : stringDecoder expected make depth s = .ok (a, rest)) :
    ∃ more text, skipGaps s = '"' :: more ∧ readString more = .ok (text, rest) ∧
      make (.ofList text) = .ok a := by
  unfold stringDecoder at h
  obtain ⟨start, hstart, h⟩ := bind_eq_ok h
  have hs := valueStart_eq_ok hstart
  split at h
  · next more =>
    obtain ⟨⟨text, left⟩, htext, h⟩ := bind_eq_ok h
    dsimp only at h
    split at h
    · next hmake =>
      cases h
      exact ⟨more, text, hs, htext, hmake⟩
    · cases h
  · exact absurd h refuseType_ne_ok

theorem passes_string {α : Type} (expected : String) (make : String → Except Mismatch α) :
    Passes (stringDecoder expected make) := by
  intro depth s a rest h
  obtain ⟨more, text, hs, htext, -⟩ := stringDecoder_eq_ok h
  exact skips_string hs (skipString_of_readString more htext)

theorem nullDecoder_eq_ok {depth : Nat} {s rest : List Char} {u : Unit}
    (h : nullDecoder depth s = .ok (u, rest)) :
    ∃ more, skipGaps s = 'n' :: more ∧ readWord "ull".toList more = .ok (u, rest) := by
  unfold nullDecoder at h
  obtain ⟨start, hstart, h⟩ := bind_eq_ok h
  have hs := valueStart_eq_ok hstart
  split at h
  · next more => exact ⟨more, hs, h⟩
  · exact absurd h refuseType_ne_ok

theorem passes_option {α : Type} {decoder : Decoder α} (hd : Passes decoder) :
    Passes (optionDecoder decoder) := by
  intro depth s a rest h
  unfold optionDecoder at h
  split at h
  · next more hs =>
    obtain ⟨⟨_, left⟩, hword, h⟩ := bind_eq_ok h
    cases h
    exact skips_word .null hs hword
  · obtain ⟨⟨_, left⟩, hread, h⟩ := bind_eq_ok h
    cases h
    exact skips_skipGaps.1 (hd _ _ _ _ hread)

/-! ## Choices -/

/-- A choice is a string, or an object with a key, a colon, null and nothing more. -/
theorem passes_choice {α : Type} (make : String → Except Mismatch α) :
    Passes (choiceDecoder make) := by
  intro depth s a rest h
  unfold choiceDecoder at h
  obtain ⟨start, hstart, h⟩ := bind_eq_ok h
  have hs := valueStart_eq_ok hstart
  split at h
  · rw [← hs] at h
    exact skips_skipGaps.1 (passes_string _ _ _ _ _ _ h)
  · next more =>
    split at h
    · cases h
    · next depth =>
      obtain ⟨⟨a', afterKey⟩, hname, h⟩ := bind_eq_ok h
      obtain ⟨value, hcolon, h⟩ := bind_eq_ok h
      obtain ⟨⟨_, afterNull⟩, hnull, h⟩ := bind_eq_ok h
      obtain ⟨key, text, hkey, htext, -⟩ := stringDecoder_eq_ok hname
      obtain ⟨word, hword, hread⟩ := nullDecoder_eq_ok hnull
      dsimp only at h
      split at h
      · cases h
      · next c left hclose =>
        split at h
        · next hc =>
          cases h
          subst hc
          exact skips_object hs (skipsMembers_first hkey (skipKey_of_readString htext hcolon)
            (skips_word .null hword hread) (skipsMembers_close hclose))
        · cases h
  · cases h

/-! ## Records -/

section
variable {σ : Type} {shape : RecordShape σ} {depth : Nat} {state state' : σ}

/-- Members that are read by position are the items of a list. -/
theorem skipsItems_of_readByPosition {ms : List (Member σ)} (hms : ∀ m ∈ ms, Passes m.read)
    {first : Bool} {s s' rest : List Char}
    (h : readByPosition shape depth ms first state s = .ok (state', s'))
    (hclose : readClose ']' s' = .ok rest) : SkipsItems first s rest := by
  induction ms generalizing first state s with
  | nil =>
    cases h
    exact skipsItems_close (readClose_eq_ok hclose)
  | cons m more ih =>
    obtain ⟨hm, hmore⟩ := List.forall_mem_cons.1 hms
    rw [readByPosition] at h
    obtain ⟨continuation, hbefore, h⟩ := bind_eq_ok h
    cases continuation with
    | next r =>
      obtain ⟨⟨set, r'⟩, hread, h⟩ := bind_eq_ok h
      exact skipsItems_next hbefore (hm _ _ _ _ hread) (ih hmore h)
    | finished r =>
      obtain ⟨t, hs, rfl⟩ := beforeItem_finished hbefore
      dsimp only at h
      split at h
      · have hbracket : skipGaps (']' :: t) = ']' :: t := rfl
        exact skipsItems_congr (hbracket.trans hs.symm) (ih hmore h)
      · cases h

/-- Members that are read by name are the members of an object. -/
theorem skipsMembers_of_readByName (hms : ∀ m ∈ shape.members, Passes m.read) {fuel : Nat}
    {first : Bool} {seen : List String} {s s' rest : List Char}
    (h : readByName shape depth fuel first seen state s = .ok (state', s'))
    (hclose : readClose '}' s' = .ok rest) : SkipsMembers first s rest := by
  induction fuel generalizing first seen state s with
  | zero => cases h
  | succ fuel ih =>
    rw [readByName] at h
    obtain ⟨continuation, hbefore, h⟩ := bind_eq_ok h
    cases continuation with
    | finished r =>
      obtain ⟨t, hs, rfl⟩ := beforeKey_finished hbefore
      dsimp only at h
      split at h
      · cases h
      · cases h
        have ht : t = rest := (List.cons.inj (readClose_eq_ok hclose)).2
        exact skipsMembers_close (ht ▸ hs)
    | next r =>
      obtain ⟨⟨key, afterKey⟩, hkey, h⟩ := bind_eq_ok h
      dsimp only at h
      split at h
      · obtain ⟨value, hcolon, h⟩ := bind_eq_ok h
        obtain ⟨r', hvalue, h⟩ := bind_eq_ok h
        exact skipsMembers_next hbefore (skipKey_of_readString hkey hcolon) ⟨_, hvalue⟩ (ih h)
      · next m hm =>
        split at h
        · cases h
        · obtain ⟨value, hcolon, h⟩ := bind_eq_ok h
          obtain ⟨⟨set, r'⟩, hread, h⟩ := bind_eq_ok h
          exact skipsMembers_next hbefore (skipKey_of_readString hkey hcolon)
            (hms m (List.mem_of_find?_eq_some hm) _ _ _ _ hread) (ih h)

theorem passes_record (hms : ∀ m ∈ shape.members, Passes m.read) :
    Passes (recordDecoder shape) := by
  intro depth s state rest h
  unfold recordDecoder at h
  obtain ⟨start, hstart, h⟩ := bind_eq_ok h
  have hs := valueStart_eq_ok hstart
  split at h
  · split at h
    · cases h
    · obtain ⟨⟨state', s'⟩, hread, h⟩ := bind_eq_ok h
      obtain ⟨left, hclose, h⟩ := bind_eq_ok h
      cases h
      exact skips_list hs (skipsItems_of_readByPosition hms hread hclose)
  · split at h
    · cases h
    · obtain ⟨⟨state', s'⟩, hread, h⟩ := bind_eq_ok h
      obtain ⟨left, hclose, h⟩ := bind_eq_ok h
      cases h
      exact skips_object hs (skipsMembers_of_readByName hms hread hclose)
  · exact absurd h refuseType_ne_ok

end

end VideoScript.Json
