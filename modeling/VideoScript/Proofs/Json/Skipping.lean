import Mathlib.Data.List.DropRight
import VideoScript.Json.Record
import VideoScript.Proofs.Lists

/-!
# How values are passed over

Passing over a value takes some fuel and then goes the same way with more (`skipSteady`), so
`Skips s rest` leaves the fuel open. It takes at least one character away, and the fuel that a
reader gives it for its text is always enough (`skipBound`).
-/

set_option autoImplicit false

namespace VideoScript.Json

open Text

/-! ## Fuel -/

/-- Where one result is a value, the other is the same value. -/
def Extends {α : Type} (r r' : Except Fault α) : Prop := ∀ v, r = .ok v → r' = .ok v

theorem Extends.refl {α : Type} (r : Except Fault α) : Extends r r := fun _ h => h

theorem Extends.bind {α β : Type} {r r' : Except Fault α} {f f' : α → Except Fault β}
    (h : Extends r r') (hf : ∀ v, Extends (f v) (f' v)) : Extends (r >>= f) (r' >>= f') := by
  intro b hb
  obtain ⟨v, hv, hb⟩ := bind_eq_ok hb
  rw [h v hv]
  exact hf v b hb

/-- Passing over goes the same way with one more step of fuel. -/
structure SkipSteady (fuel : Nat) : Prop where
  value : ∀ s, Extends (skipValue fuel s) (skipValue (fuel + 1) s)
  items : ∀ first s, Extends (skipItems fuel first s) (skipItems (fuel + 1) first s)
  members : ∀ first s, Extends (skipMembers fuel first s) (skipMembers (fuel + 1) first s)

theorem skipSteady : ∀ fuel, SkipSteady fuel
  | 0 => by
    refine ⟨fun s r h => ?_, fun first s r h => ?_, fun first s r h => ?_⟩ <;> cases h
  | fuel + 1 => by
    have ih := skipSteady fuel
    refine ⟨fun s => ?_, fun first s => ?_, fun first s => ?_⟩
    · rw [skipValue, skipValue]
      split
      any_goals exact Extends.refl _
      · exact ih.items _ _
      · exact ih.members _ _
    · have hnext (rest : List Char) := (ih.value rest).bind fun r => ih.items false r
      rw [skipItems, skipItems]
      split
      · exact Extends.refl _
      · exact Extends.refl _
      · split
        · exact hnext _
        · split
          · exact hnext _
          · exact Extends.refl _
    · have hnext (rest : List Char) := (Extends.refl (skipKey rest)).bind fun r =>
        (ih.value r).bind fun r => ih.members false r
      rw [skipMembers, skipMembers]
      split
      · exact Extends.refl _
      · split
        · exact Extends.refl _
        · split
          · split
            · exact hnext _
            · exact Extends.refl _
          · split
            · split
              · exact Extends.refl _
              · split
                · exact hnext _
                · exact Extends.refl _
            · exact Extends.refl _

section
variable {fuel fuel' : Nat} {first : Bool} {s rest rest' : List Char}

theorem skipValue_mono (h : skipValue fuel s = .ok rest) (hle : fuel ≤ fuel') :
    skipValue fuel' s = .ok rest := by
  induction hle with
  | refl => exact h
  | step _ ih => exact (skipSteady _).value s rest ih

theorem skipItems_mono (h : skipItems fuel first s = .ok rest) (hle : fuel ≤ fuel') :
    skipItems fuel' first s = .ok rest := by
  induction hle with
  | refl => exact h
  | step _ ih => exact (skipSteady _).items first s rest ih

theorem skipMembers_mono (h : skipMembers fuel first s = .ok rest) (hle : fuel ≤ fuel') :
    skipMembers fuel' first s = .ok rest := by
  induction hle with
  | refl => exact h
  | step _ ih => exact (skipSteady _).members first s rest ih

/-- A value at the start of a text can be passed over, and `rest` comes after it. -/
def Skips (s rest : List Char) : Prop := ∃ fuel, skipValue fuel s = .ok rest

theorem Skips.unique (h : Skips s rest) (h' : Skips s rest') : rest = rest' := by
  obtain ⟨fuel, h⟩ := h
  obtain ⟨fuel', h'⟩ := h'
  have hmax := skipValue_mono h (Nat.le_max_left fuel fuel')
  rw [skipValue_mono h' (Nat.le_max_right fuel fuel')] at hmax
  exact (Except.ok.inj hmax).symm

theorem skipGaps_skipGaps (s : List Char) : skipGaps (skipGaps s) = skipGaps s :=
  List.dropWhile_idempotent isGap s

/-- Blanks before a value do not count. -/
theorem skips_skipGaps : Skips (skipGaps s) rest ↔ Skips s rest := by
  have hstep (fuel : Nat) : skipValue (fuel + 1) (skipGaps s) = skipValue (fuel + 1) s := by
    rw [skipValue, skipValue, skipGaps_skipGaps]
  constructor
  · rintro ⟨fuel, h⟩
    cases fuel with
    | zero => cases h
    | succ fuel => exact ⟨fuel + 1, (hstep fuel).symm.trans h⟩
  · rintro ⟨fuel, h⟩
    cases fuel with
    | zero => cases h
    | succ fuel => exact ⟨fuel + 1, (hstep fuel).trans h⟩

end

/-! ## Lengths -/

theorem faultInDigits_ne_ok {α : Type} {s : List Char} {a : α} :
    faultInDigits s ≠ .ok a := by
  unfold faultInDigits
  split <;> exact nofun

theorem length_skipGaps (s : List Char) : (skipGaps s).length ≤ s.length :=
  (List.dropWhile_suffix _).length_le

theorem length_readWord {word s rest : List Char} {u : Unit}
    (h : readWord word s = .ok (u, rest)) : rest.length ≤ s.length := by
  induction word generalizing s with
  | nil =>
    cases h
    exact Nat.le_refl _
  | cons c word ih =>
    cases s with
    | nil => cases h
    | cons d s =>
      rw [readWord] at h
      split at h
      · exact Nat.le_succ_of_le (ih h)
      · cases h

theorem length_skipWord {word s rest : List Char}
    (h : (readWord word s).map (·.2) = .ok rest) : rest.length ≤ s.length := by
  cases hread : readWord word s with
  | error f =>
    rw [hread] at h
    cases h
  | ok result =>
    rw [hread] at h
    cases h
    exact length_readWord hread

theorem length_skipString (s : List Char) {rest : List Char} (h : skipString s = .ok rest) :
    rest.length < s.length := by
  fun_induction skipString s with
  | case1 => cases h
  | case2 =>
    cases h
    exact Nat.lt_succ_self _
  | case3 a b c d more hdigits ih =>
    have := ih h
    simp only [List.length_cons]
    omega
  | case4 => exact absurd h faultInDigits_ne_ok
  | case5 c more hunit hescape ih =>
    have := ih h
    simp only [List.length_cons]
    omega
  | case6 => exact absurd h faultInDigits_ne_ok
  | case7 | case8 | case9 => cases h
  | case10 c more hquote hunit hescape hslash hcontrol ih =>
    have := ih h
    simp only [List.length_cons]
    omega

theorem length_skipExponent {s rest : List Char} (h : skipExponent s = .ok rest) :
    rest.length ≤ s.length := by
  unfold skipExponent at h
  extract_lets digits at h
  have hdigits : digits.length ≤ s.length := by
    unfold digits
    split
    · exact Nat.le_succ _
    · exact Nat.le_succ _
    · exact Nat.le_refl _
  clear_value digits
  cases digits with
  | nil => cases h
  | cons c more =>
    dsimp only at h
    split at h
    · cases h
      have hmore := (List.dropWhile_suffix isDigit (l := more)).length_le
      rw [List.length_cons] at hdigits
      omega
    · cases h

theorem length_skipFloatEnd {s rest : List Char} (h : skipFloatEnd s = .ok rest) :
    rest.length ≤ s.length := by
  unfold skipFloatEnd at h
  split at h
  · split at h
    · exact Nat.le_succ_of_le (length_skipExponent h)
    · cases h
      exact Nat.le_refl _
  · cases h
    exact Nat.le_refl _

theorem length_skipNumberEnd {s rest : List Char} (h : skipNumberEnd s = .ok rest) :
    rest.length ≤ s.length := by
  unfold skipNumberEnd at h
  split at h
  · split at h
    · next c more =>
      split at h
      · have := length_skipFloatEnd h
        have := (List.dropWhile_suffix isDigit (l := more)).length_le
        simp only [List.length_cons]
        omega
      · cases h
    · cases h
  · exact length_skipFloatEnd h

theorem length_skipNumber {s rest : List Char} (h : skipNumber s = .ok rest) :
    rest.length < s.length := by
  unfold skipNumber at h
  split at h
  · cases h
  · next more =>
    split at h
    · split at h
      · cases h
      · exact Nat.lt_succ_of_le (length_skipNumberEnd h)
    · cases h
      exact Nat.lt_succ_self _
  · next c more _ =>
    split at h
    · have := length_skipNumberEnd h
      have := (List.dropWhile_suffix isDigit (l := more)).length_le
      simp only [List.length_cons]
      omega
    · cases h

theorem length_readColon {s rest : List Char} (h : readColon s = .ok rest) :
    rest.length < s.length := by
  have hgaps := length_skipGaps s
  unfold readColon at h
  split at h
  · cases h
  · next hs =>
    cases h
    rw [hs, List.length_cons] at hgaps
    omega
  · cases h

theorem length_skipKey {s rest : List Char} (h : skipKey s = .ok rest) :
    rest.length < s.length := by
  obtain ⟨left, hleft, h⟩ := bind_eq_ok h
  exact Nat.lt_trans (length_readColon h) (length_skipString s hleft)

/-! ## Enough fuel -/

/-- Passing over takes characters away, and the fuel for the text is enough for it. -/
structure SkipBound (fuel : Nat) : Prop where
  value : ∀ s rest, skipValue fuel s = .ok rest →
    rest.length < s.length ∧ skipValue (fuelFor s) s = .ok rest
  items : ∀ first s rest, skipItems fuel first s = .ok rest →
    rest.length < s.length ∧ skipItems (fuelFor s + 1) first s = .ok rest
  members : ∀ first s rest, skipMembers fuel first s = .ok rest →
    rest.length < s.length ∧ skipMembers (fuelFor s + 1) first s = .ok rest

section
variable {fuel : Nat} {first : Bool} {s rest : List Char}

theorem SkipBound.value_succ (ih : SkipBound fuel) (h : skipValue (fuel + 1) s = .ok rest) :
    rest.length < s.length ∧ skipValue (fuelFor s) s = .ok rest := by
  have hgaps := length_skipGaps s
  -- both amounts of fuel go through the same cases
  revert h
  rw [show fuelFor s = (2 * s.length + 1) + 1 from rfl, skipValue, skipValue]
  split
  · intro h
    cases h
  · next t hs =>
    intro h
    rw [hs, List.length_cons] at hgaps
    have hlen := length_skipString t h
    exact ⟨by omega, h⟩
  · next t hs =>
    intro h
    rw [hs, List.length_cons] at hgaps
    obtain ⟨hlen, hfuel⟩ := ih.items _ _ _ h
    refine ⟨by omega, skipItems_mono hfuel ?_⟩
    unfold fuelFor
    omega
  · next t hs =>
    intro h
    rw [hs, List.length_cons] at hgaps
    obtain ⟨hlen, hfuel⟩ := ih.members _ _ _ h
    refine ⟨by omega, skipMembers_mono hfuel ?_⟩
    unfold fuelFor
    omega
  · next t hs =>
    intro h
    rw [hs, List.length_cons] at hgaps
    exact ⟨Nat.lt_of_lt_of_le (Nat.lt_succ_of_le (length_skipWord h)) hgaps, h⟩
  · next t hs =>
    intro h
    rw [hs, List.length_cons] at hgaps
    exact ⟨Nat.lt_of_lt_of_le (Nat.lt_succ_of_le (length_skipWord h)) hgaps, h⟩
  · next t hs =>
    intro h
    rw [hs, List.length_cons] at hgaps
    exact ⟨Nat.lt_of_lt_of_le (Nat.lt_succ_of_le (length_skipWord h)) hgaps, h⟩
  · next t hs =>
    intro h
    rw [hs, List.length_cons] at hgaps
    have hlen := length_skipNumber h
    exact ⟨by omega, h⟩
  · next c t _ _ _ _ _ _ _ hs =>
    intro h
    rw [hs] at hgaps
    split at h
    · have hlen := length_skipNumber h
      exact ⟨by omega, by rwa [if_pos ‹_›]⟩
    · cases h

theorem SkipBound.items_succ (ih : SkipBound fuel) (h : skipItems (fuel + 1) first s = .ok rest) :
    rest.length < s.length ∧ skipItems (fuelFor s + 1) first s = .ok rest := by
  -- an item, and then the items after it
  have hnext {t : List Char} (ht : t.length ≤ s.length)
      (h : (skipValue fuel t >>= fun r => skipItems fuel false r) = .ok rest) :
      rest.length < s.length ∧ (skipValue (fuelFor s) t >>= fun r =>
        skipItems (fuelFor s) false r) = .ok rest := by
    obtain ⟨r, hr, h⟩ := bind_eq_ok h
    obtain ⟨hlen, hvalue⟩ := ih.value _ _ hr
    obtain ⟨hlen', hitems⟩ := ih.items _ _ _ h
    refine ⟨by omega, ?_⟩
    rw [skipValue_mono hvalue (by unfold fuelFor; omega)]
    exact skipItems_mono hitems (by unfold fuelFor; omega)
  have hgaps := length_skipGaps s
  revert h
  rw [skipItems, skipItems]
  split
  · intro h
    cases h
  · next t hs =>
    intro h
    cases h
    rw [hs, List.length_cons] at hgaps
    exact ⟨hgaps, rfl⟩
  · next c t _ hs =>
    rw [hs, List.length_cons] at hgaps
    split
    · exact hnext hgaps
    · split
      · exact hnext (Nat.le_of_succ_le hgaps)
      · intro h
        cases h

theorem SkipBound.members_succ (ih : SkipBound fuel)
    (h : skipMembers (fuel + 1) first s = .ok rest) :
    rest.length < s.length ∧ skipMembers (fuelFor s + 1) first s = .ok rest := by
  -- a member, and then the members after it
  have hnext {t : List Char} (ht : t.length ≤ s.length)
      (h : (skipKey t >>= fun r => skipValue fuel r >>= fun r => skipMembers fuel false r) =
        .ok rest) :
      rest.length < s.length ∧ (skipKey t >>= fun r => skipValue (fuelFor s) r >>= fun r =>
        skipMembers (fuelFor s) false r) = .ok rest := by
    obtain ⟨value, hkey, h⟩ := bind_eq_ok h
    obtain ⟨r, hr, h⟩ := bind_eq_ok h
    have hlen := length_skipKey hkey
    obtain ⟨hlen', hvalue⟩ := ih.value _ _ hr
    obtain ⟨hlen'', hmembers⟩ := ih.members _ _ _ h
    refine ⟨by omega, ?_⟩
    rw [hkey]
    show (skipValue (fuelFor s) value >>= fun r => skipMembers (fuelFor s) false r) = _
    rw [skipValue_mono hvalue (by unfold fuelFor; omega)]
    exact skipMembers_mono hmembers (by unfold fuelFor; omega)
  have hgaps := length_skipGaps s
  revert h
  rw [skipMembers, skipMembers]
  split
  · intro h
    cases h
  · next c t hs =>
    rw [hs, List.length_cons] at hgaps
    split
    · intro h
      cases h
      exact ⟨hgaps, rfl⟩
    · split
      · split
        · exact hnext (Nat.le_of_succ_le hgaps)
        · intro h
          cases h
      · split
        · have hgaps' := length_skipGaps t
          split
          · intro h
            cases h
          · next d more ht =>
            rw [ht, List.length_cons] at hgaps'
            split
            · exact hnext (by omega)
            · intro h
              cases h
        · intro h
          cases h

end

theorem skipBound : ∀ fuel, SkipBound fuel
  | 0 => by
    refine ⟨fun s rest h => ?_, fun first s rest h => ?_, fun first s rest h => ?_⟩ <;> cases h
  | fuel + 1 =>
    have ih := skipBound fuel
    ⟨fun _ _ h => ih.value_succ h, fun _ _ _ h => ih.items_succ h, fun _ _ _ h => ih.members_succ h⟩

/-- The fuel for a text is enough to pass over a value at its start. -/
theorem Skips.skipValue {s rest : List Char} (h : Skips s rest) :
    Json.skipValue (fuelFor s) s = .ok rest := by
  obtain ⟨fuel, h⟩ := h
  exact ((skipBound fuel).value s rest h).2

theorem Skips.length_lt {s rest : List Char} (h : Skips s rest) : rest.length < s.length := by
  obtain ⟨fuel, h⟩ := h
  exact ((skipBound fuel).value s rest h).1

end VideoScript.Json
