import Mathlib
import VideoScript.Decimal.Reading
import VideoScript.Decimal.Shortest

/-!
# Floats and zero

The number that is written for a float is read off its bits (`whole?`), while the order of floats is
that of their unpacked forms. `Kind` goes from the one to the other: a float is infinite, no number,
a zero or a finite number by the fields of its bits. So a whole number is on the side of zero where
its float is (`sides_of_whole?`).

A comparison with zero tells little of a float that is no number: it is neither below zero nor above
it. What is not below zero stays so under addition (`add_not_lt_zero`).
-/

set_option autoImplicit false

namespace VideoScript.Decimal

open Float.Model Float.Model.UnpackedFloat

variable {x y : Float}

/-! ## The fields of a float -/

/-- The bits of a float but for its sign. -/
def magnitudeBits (x : Float) : Nat := x.toBits.toNat % Nat.pow 2 63

/-- The sign of a float. -/
def signOf (x : Float) : Sign := if isNegative x then .negative else .positive

theorem toNat_unpackMantissa (b : BitVec Format.binary64.numBits) :
    (unpackMantissa b).toNat = b.toNat % Nat.pow 2 52 := by
  rw [unpackMantissa_def, BitVec.extractLsb'_toNat, Nat.shiftRight_zero]
  rfl

theorem toNat_unpackExponent (b : BitVec Format.binary64.numBits) :
    (unpackExponent b).toNat = b.toNat % Nat.pow 2 63 / Nat.pow 2 52 := by
  rw [unpackExponent_def, BitVec.extractLsb'_toNat, Nat.shiftRight_eq_div_pow]
  show b.toNat / 2 ^ 52 % 2 ^ 11 = b.toNat % 2 ^ 63 / 2 ^ 52
  omega

theorem toNat_unpackSign (b : BitVec Format.binary64.numBits) :
    (unpackSign b).toNat = b.toNat / Nat.pow 2 63 := by
  have hlt : b.toNat < 2 ^ 64 := b.isLt
  rw [unpackSign_def, BitVec.extractLsb'_toNat, Nat.shiftRight_eq_div_pow]
  show b.toNat / 2 ^ 63 % 2 ^ 1 = b.toNat / 2 ^ 63
  omega

theorem ofBitVec_unpackSign (b : BitVec Format.binary64.numBits) :
    Sign.ofBitVec (unpackSign b) = if Nat.pow 2 63 ≤ b.toNat then .negative else .positive := by
  have hzero : unpackSign b = 0#1 ↔ b.toNat < Nat.pow 2 63 := by
    rw [← BitVec.toNat_inj, toNat_unpackSign]
    simp [Nat.div_eq_zero_iff]
  unfold Sign.ofBitVec
  by_cases h : Nat.pow 2 63 ≤ b.toNat
  · rw [if_pos h, if_neg (by rw [hzero]; omega)]
  · rw [if_neg h, if_pos (by rw [hzero]; omega)]

/-- What a float is, by its fields: with all bits of the exponent set it is infinite or no number,
without any bits zero, and a number other than zero else. -/
inductive Kind (x : Float) : UnpackedFloat → Prop
  | infinity (h : magnitudeBits x / Nat.pow 2 52 = 2047) : Kind x (.infinity (signOf x))
  | notANumber (h : magnitudeBits x / Nat.pow 2 52 = 2047) : Kind x .notANumber
  | zero (h : magnitudeBits x = 0) : Kind x (.zero (signOf x))
  | finite {mantissa : Nat} {exponent : Int} {pos : 0 < mantissa}
      (h : magnitudeBits x / Nat.pow 2 52 ≠ 2047) (h0 : magnitudeBits x ≠ 0) :
      Kind x (.finite (signOf x) mantissa exponent pos)

theorem kind_of_bits {b : BitVec Format.binary64.numBits} (hbits : x.toBits.toNat = b.toNat) :
    Kind x (UnpackedFloat.unpack Format.binary64 b) := by
  have hexponent : (unpackExponent b).toNat = magnitudeBits x / Nat.pow 2 52 := by
    rw [toNat_unpackExponent, magnitudeBits, hbits]
  have hmantissa : (unpackMantissa b).toNat = magnitudeBits x % Nat.pow 2 52 := by
    rw [toNat_unpackMantissa, magnitudeBits, hbits]
    exact (Nat.mod_mod_of_dvd _ ⟨2048, rfl⟩).symm
  have hsign : Sign.ofBitVec (unpackSign b) = signOf x := by
    rw [ofBitVec_unpackSign, signOf, isNegative, hbits]
    simp
  have hfull : unpackExponent b = -1#_ ↔ magnitudeBits x / Nat.pow 2 52 = 2047 := by
    rw [← BitVec.toNat_inj, hexponent]
    rfl
  have hempty : unpackExponent b = 0#_ ↔ magnitudeBits x / Nat.pow 2 52 = 0 := by
    rw [← BitVec.toNat_inj, hexponent]
    rfl
  have hnone : unpackMantissa b = 0#_ ↔ magnitudeBits x % Nat.pow 2 52 = 0 := by
    rw [← BitVec.toNat_inj, hmantissa]
    rfl
  have hsplit := Nat.div_add_mod (magnitudeBits x) (Nat.pow 2 52)
  unfold UnpackedFloat.unpack
  dsimp only
  rw [hsign]
  split
  · rename_i hspecial
    split
    · exact .infinity (hfull.1 hspecial)
    · exact .notANumber (hfull.1 hspecial)
  · rename_i hspecial
    rw [hfull] at hspecial
    split
    · rename_i hexp
      rw [hempty] at hexp
      split
      · rename_i hm
        rw [hnone] at hm
        exact .zero (by rw [← hsplit, hexp, hm])
      · rename_i hm
        rw [hnone] at hm
        exact .finite hspecial fun h0 => hm (by rw [h0])
    · rename_i hexp
      rw [hempty] at hexp
      exact .finite hspecial fun h0 => hexp (by rw [h0])

theorem kind (x : Float) : Kind x x.toModel.unpack := kind_of_bits rfl

theorem isFinite_iff : x.isFinite = true ↔ magnitudeBits x / Nat.pow 2 52 ≠ 2047 := by
  have hk := kind x
  show x.toModel.unpack.isFinite = true ↔ _
  generalize x.toModel.unpack = u at hk
  cases hk with
  | infinity h => exact iff_of_false Bool.false_ne_true fun hn => hn h
  | notANumber h => exact iff_of_false Bool.false_ne_true fun hn => hn h
  | zero h => exact iff_of_true rfl (by rw [h]; decide)
  | finite h h0 => exact iff_of_true rfl h

/-! ## Floats and zero -/

theorem unpack_zero : (0.0 : Float).toModel.unpack = .zero .positive := rfl

theorem le_iff : x ≤ y ↔ x.toModel.unpack.le y.toModel.unpack = true := decide_eq_true_iff

theorem lt_iff : x < y ↔ x.toModel.unpack.lt y.toModel.unpack = true := decide_eq_true_iff

/-- A finite float is a zero, above zero or below zero. -/
theorem sides_of_finite (hx : x.isFinite = true) :
    (magnitudeBits x = 0 ∧ 0.0 ≤ x ∧ x ≤ 0.0 ∧ ¬ 0.0 < x) ∨
      (magnitudeBits x ≠ 0 ∧ isNegative x = false ∧ 0.0 ≤ x ∧ 0.0 < x) ∨
        (x < 0.0 ∧ x ≤ 0.0 ∧ ¬ 0.0 ≤ x ∧ ¬ 0.0 < x) := by
  have hk := kind x
  have hx : x.toModel.unpack.isFinite = true := hx
  simp only [le_iff, lt_iff, unpack_zero]
  generalize x.toModel.unpack = u at hk hx
  cases hk with
  | infinity => exact absurd hx Bool.false_ne_true
  | notANumber => exact absurd hx Bool.false_ne_true
  | zero h0 => exact .inl ⟨h0, rfl, rfl, Bool.false_ne_true⟩
  | finite _ h0 =>
    rw [signOf]
    cases isNegative x with
    | false => exact .inr (.inl ⟨h0, rfl, rfl, rfl⟩)
    | true => exact .inr (.inr ⟨rfl, rfl, Bool.false_ne_true, Bool.false_ne_true⟩)

theorem zero_lt_of_not_le (hx : x.isFinite = true) (h : ¬ x ≤ 0.0) : 0.0 < x := by
  rcases sides_of_finite hx with ⟨-, -, hle, -⟩ | ⟨-, -, -, hlt⟩ | ⟨-, hle, -, -⟩
  · exact absurd hle h
  · exact hlt
  · exact absurd hle h

theorem zero_le_of_not_lt (hx : x.isFinite = true) (h : ¬ x < 0.0) : 0.0 ≤ x := by
  rcases sides_of_finite hx with ⟨-, hle, -, -⟩ | ⟨-, -, hle, -⟩ | ⟨hlt, -, -, -⟩
  · exact hle
  · exact hle
  · exact absurd hlt h

/-! ## Floats that are not below zero -/

/-- The float is not below zero: it is no number, a zero, or it has no sign. -/
def NotBelow : UnpackedFloat → Prop
  | .infinity s => s = .positive
  | .notANumber => True
  | .zero _ => True
  | .finite s _ _ _ => s = .positive

theorem not_lt_zero_iff : ¬ x < 0.0 ↔ NotBelow x.toModel.unpack := by
  rw [lt_iff, unpack_zero]
  cases x.toModel.unpack with
  | notANumber => exact iff_of_true Bool.false_ne_true trivial
  | zero s => exact iff_of_true Bool.false_ne_true trivial
  | infinity s =>
    cases s with
    | negative => exact iff_of_false (fun hn => hn rfl) fun h => nomatch h
    | positive => exact iff_of_true Bool.false_ne_true rfl
  | finite s m e hm =>
    cases s with
    | negative => exact iff_of_false (fun hn => hn rfl) fun h => nomatch h
    | positive => exact iff_of_true Bool.false_ne_true rfl

theorem notBelow_unpack {spec : Format} {b : BitVec spec.numBits}
    (h : Sign.ofBitVec (unpackSign b) = .positive) : NotBelow (UnpackedFloat.unpack spec b) := by
  unfold UnpackedFloat.unpack
  dsimp only
  rw [h]
  split
  · split <;> trivial
  · split
    · split <;> trivial
    · trivial

theorem notBelow_packComponents (spec : Format) (exponent : BitVec spec.exponentBits)
    (mantissa : BitVec spec.mantissaBitsWithoutImplicit) :
    NotBelow (UnpackedFloat.unpack spec (packComponents spec .positive exponent mantissa)) := by
  apply notBelow_unpack
  rw [unpackSign_packComponents, Sign.ofBitVec_toBitVec]

/-- What is not below zero is not below zero after it is packed. -/
theorem NotBelow.pack {u : UnpackedFloat} (h : NotBelow u) :
    NotBelow (Float.Model.pack u).unpack := by
  show NotBelow (UnpackedFloat.unpack _ (UnpackedFloat.pack Format.binary64 u))
  cases u with
  | notANumber => exact notBelow_packComponents _ _ _
  | infinity s =>
    obtain rfl : s = .positive := h
    exact notBelow_packComponents _ _ _
  | zero s => cases s <;> trivial
  | finite s m e hm =>
    obtain rfl : s = .positive := h
    unfold UnpackedFloat.pack
    dsimp only
    split
    · exact notBelow_packComponents _ _ _
    · split <;> exact notBelow_packComponents _ _ _

theorem notBelow_roundWithAccuracy (spec : Format) (mantissa : Nat) (exponent : Int)
    (accuracy : Accuracy) :
    NotBelow (roundWithAccuracy spec .positive mantissa exponent accuracy) := by
  unfold roundWithAccuracy
  dsimp only
  split <;> trivial

theorem notBelow_normalize (spec : Format) {mantissa : Int} (h : 0 ≤ mantissa) (exponent : Int)
    (zeroSign : Sign) : NotBelow (UnpackedFloat.normalize spec mantissa exponent zeroSign) := by
  unfold UnpackedFloat.normalize
  split
  · rename_i hcompare
    have hlt : mantissa < 0 := compare_lt_iff_lt.1 hcompare
    omega
  · trivial
  · exact notBelow_roundWithAccuracy _ _ _ _

theorem NotBelow.add {u v : UnpackedFloat} (hu : NotBelow u) (hv : NotBelow v) (spec : Format) :
    NotBelow (UnpackedFloat.add spec u v) := by
  unfold UnpackedFloat.add
  split
  · trivial
  · trivial
  · split
    · exact hu
    · trivial
  · exact hu
  · exact hv
  · split <;> trivial
  · exact hv
  · exact hu
  · rename_i s₁ m₁ e₁ _ s₂ m₂ e₂ _
    obtain rfl : s₁ = .positive := hu
    obtain rfl : s₂ = .positive := hv
    exact notBelow_normalize _ (Int.add_nonneg (Int.natCast_nonneg _) (Int.natCast_nonneg _)) _ _

/-- A whole number is not below zero as a float. -/
theorem floatOfNat_not_lt_zero (n : Nat) : ¬ floatOfNat n < 0.0 := by
  rw [not_lt_zero_iff]
  exact (notBelow_normalize _ (Int.natCast_nonneg _) _ _).pack

/-- The sum of floats that are not below zero is not below zero. -/
theorem add_not_lt_zero (hx : ¬ x < 0.0) (hy : ¬ y < 0.0) : ¬ x + y < 0.0 := by
  rw [not_lt_zero_iff] at hx hy ⊢
  exact (hx.add hy Format.binary64).pack

/-! ## Floats that are whole numbers -/

theorem whole?_zero (h : magnitudeBits x = 0) : whole? x = some 0 := if_pos h

/-- A float that is infinite or no number is no whole number. -/
theorem whole?_of_not_finite (h : x.isFinite = false) : whole? x = none := by
  have hspecial : magnitudeBits x / Nat.pow 2 52 = 2047 := by
    rw [← Bool.not_eq_true, isFinite_iff, Decidable.not_not] at h
    exact h
  have hzero : ¬ x.toBits.toNat % Nat.pow 2 63 = 0 := by
    intro h0
    rw [magnitudeBits, h0] at hspecial
    cases hspecial
  have hnone : Binary.ofFloat? x = none := if_pos hspecial
  rw [whole?, if_neg hzero, hnone]
  rfl

theorem mantissa_pos {b : Binary} (h : Binary.ofFloat? x = some b) : 0 < b.mantissa := by
  unfold Binary.ofFloat? at h
  dsimp only at h
  split at h
  · cases h
  · split at h
    · split at h
      · cases h
      · rename_i hfraction
        cases h
        exact Nat.pos_of_ne_zero hfraction
    · cases h
      exact Nat.add_pos_left (Nat.pow_pos (by decide)) _

/-- A whole number is positive where its float is above zero. -/
theorem whole?_pos {n : Int} (h0 : magnitudeBits x ≠ 0) (hsign : isNegative x = false)
    (h : whole? x = some n) : 0 < n := by
  rw [whole?, if_neg (show ¬ x.toBits.toNat % Nat.pow 2 63 = 0 from h0)] at h
  obtain ⟨b, hb, h⟩ := Option.bind_eq_some_iff.1 h
  have hm := mantissa_pos hb
  rw [hsign] at h
  dsimp only at h
  have htwo (k : Nat) : 0 < Nat.pow 2 k := Nat.pow_pos (by decide)
  split at h
  · cases h
    exact Int.natCast_pos.2 (Nat.mul_pos hm (htwo _))
  · split at h
    · rename_i hdvd
      cases h
      exact Int.natCast_pos.2
        (Nat.div_pos (Nat.le_of_dvd hm (Nat.dvd_of_mod_eq_zero hdvd)) (htwo _))
    · cases h

/-- A whole number is on the side of zero where its float is. -/
theorem sides_of_whole? {n : Int} (hx : x.isFinite = true) (h : whole? x = some n) :
    (0.0 < x → 0 < n) ∧ (0.0 ≤ x → 0 ≤ n) := by
  rcases sides_of_finite hx with ⟨h0, -, -, hnot⟩ | ⟨h0, hsign, -, -⟩ | ⟨-, -, hnle, hnlt⟩
  · rw [whole?_zero h0] at h
    cases h
    exact ⟨fun hlt => absurd hlt hnot, fun _ => Int.le_refl 0⟩
  · have hpos := whole?_pos h0 hsign h
    exact ⟨fun _ => hpos, fun _ => Int.le_of_lt hpos⟩
  · exact ⟨fun hlt => absurd hlt hnlt, fun hle => absurd hle hnle⟩

end VideoScript.Decimal
