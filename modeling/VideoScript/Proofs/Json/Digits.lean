import VideoScript.Json.Printer
import VideoScript.Json.Reader
import VideoScript.Proofs.Json.Pointer

/-!
# Reading the text of a number

A number is written with a sign and digits, and what is read of these may be another number:
`soleNumber?` is the one that is read. It is also read where the text stands before another one that
does not go on with the number (`EndsNumber`, `readNumber_append`). A whole number that fits a word
is read as it is (`soleNumber?_whole`).
-/

set_option autoImplicit false

namespace VideoScript.Json

open Text

/-! ## What ends a number -/

/-- What follows does not go on with a number. -/
def EndsNumber (rest : List Char) : Prop :=
  ∀ c ∈ rest.head?, isDigit c = false ∧ c ≠ '.' ∧ c ≠ 'e' ∧ c ≠ 'E'

/-- The sign of an exponent and what comes after it. -/
def exponentSign (s : List Char) : Bool × List Char :=
  match s with
  | '+' :: rest => (false, rest)
  | '-' :: rest => (true, rest)
  | _ => (false, s)

/-- What the digits of an exponent make of a number. -/
def atExponent (negative : Bool) (significand : Nat) (exponent : Int) (down : Bool)
    (digits : List Char) : Except Fault (Number × List Char) :=
  match digits with
  | [] => faultHere .endInValue []
  | c :: rest =>
    if isDigit c then
      match readExponentDigits (digitValue c) rest with
      | (some e, rest) =>
        scaledNumber negative significand (exponent + (if down then -(e : Int) else e)) rest
      | (none, rest) =>
        if significand ≠ 0 ∧ !down then faultHere .numberOutOfRange rest
        else .ok (.float (if negative then -0.0 else 0.0), rest.dropWhile isDigit)
    else .error ⟨.invalidNumber, byteCount digits - 1⟩

section
variable {negative down : Bool} {s rest more : List Char} {n : Number} {significand : Nat}
  {exponent : Int}

theorem EndsNumber.takeWhile_append (h : EndsNumber rest) (s : List Char) :
    (s ++ rest).takeWhile isDigit = s.takeWhile isDigit := by
  induction s with
  | nil =>
    cases rest with
    | nil => rfl
    | cons c rest => exact List.takeWhile_cons_of_neg (by simp [(h c rfl).1])
  | cons c s ih => rw [List.cons_append, List.takeWhile_cons, List.takeWhile_cons, ih]

theorem EndsNumber.dropWhile_append (h : EndsNumber rest) (s : List Char) :
    (s ++ rest).dropWhile isDigit = s.dropWhile isDigit ++ rest := by
  induction s with
  | nil =>
    cases rest with
    | nil => rfl
    | cons c rest => exact List.dropWhile_cons_of_neg (by simp [(h c rfl).1])
  | cons c s ih =>
    rw [List.cons_append, List.dropWhile_cons, List.dropWhile_cons, ih]
    split <;> rfl

theorem EndsNumber.takeDigits_append (h : EndsNumber rest) (k : Nat) (s : List Char) :
    takeDigits k (s ++ rest) = ((takeDigits k s).1, (takeDigits k s).2 ++ rest) := by
  induction s generalizing k with
  | nil =>
    cases rest with
    | nil => rfl
    | cons c rest =>
      show takeDigits k (c :: rest) = (k, c :: rest)
      rw [takeDigits, if_neg (by simp [(h c rfl).1])]
  | cons c s ih =>
    rw [List.cons_append, takeDigits, takeDigits]
    dsimp only
    split
    · split
      · exact ih _
      · rfl
    · rfl

theorem EndsNumber.readExponentDigits_append (h : EndsNumber rest) (k : Nat) (s : List Char) :
    readExponentDigits k (s ++ rest) =
      ((readExponentDigits k s).1, (readExponentDigits k s).2 ++ rest) := by
  induction s generalizing k with
  | nil =>
    cases rest with
    | nil => rfl
    | cons c rest =>
      show readExponentDigits k (c :: rest) = (some k, c :: rest)
      rw [readExponentDigits, if_neg (by simp [(h c rfl).1])]
  | cons c s ih =>
    rw [List.cons_append, readExponentDigits, readExponentDigits]
    dsimp only
    split
    · split
      · exact ih _
      · rfl
    · rfl

theorem scaledNumber_append
    (h : scaledNumber negative significand exponent s = .ok (n, more)) :
    scaledNumber negative significand exponent (s ++ rest) = .ok (n, more ++ rest) := by
  unfold scaledNumber at h ⊢
  split at h
  · cases h
    rfl
  · cases h

theorem exponentSign_append (h : s ≠ []) :
    exponentSign (s ++ rest) = ((exponentSign s).1, (exponentSign s).2 ++ rest) := by
  obtain ⟨c, s, rfl⟩ := List.exists_cons_of_ne_nil h
  by_cases hplus : c = '+'
  · subst hplus
    rfl
  by_cases hminus : c = '-'
  · subst hminus
    rfl
  rw [List.cons_append, exponentSign, exponentSign]
  · rfl
  all_goals
    rintro t ht
    cases ht
    contradiction

theorem atExponent_append (hrest : EndsNumber rest)
    (h : atExponent negative significand exponent down s = .ok (n, more)) :
    atExponent negative significand exponent down (s ++ rest) = .ok (n, more ++ rest) := by
  cases s with
  | nil => cases h
  | cons c s =>
    unfold atExponent at h ⊢
    rw [List.cons_append]
    dsimp only at h ⊢
    split at h
    · next hc =>
      rw [if_pos hc, hrest.readExponentDigits_append]
      split at h
      · next e left he =>
        rw [he]
        exact scaledNumber_append h
      · next left he =>
        rw [he]
        dsimp only
        split at h
        · cases h
        · next hsmall =>
          cases h
          rw [if_neg hsmall, hrest.dropWhile_append]
    · cases h

theorem readExponent_append (hrest : EndsNumber rest)
    (h : readExponent negative significand exponent s = .ok (n, more)) :
    readExponent negative significand exponent (s ++ rest) = .ok (n, more ++ rest) := by
  have heq (s : List Char) : readExponent negative significand exponent s =
      atExponent negative significand exponent (exponentSign s).1 (exponentSign s).2 := rfl
  have hs : s ≠ [] := by
    rintro rfl
    cases h
  rw [heq] at h
  rw [heq, exponentSign_append hs]
  exact atExponent_append hrest h

theorem readFloatEnd_append (hrest : EndsNumber rest)
    (h : readFloatEnd negative significand exponent s = .ok (n, more)) :
    readFloatEnd negative significand exponent (s ++ rest) = .ok (n, more ++ rest) := by
  cases s with
  | nil =>
    cases rest with
    | nil => simpa using h
    | cons c rest =>
      have hmark : ¬ (c = 'e' ∨ c = 'E') := fun hc =>
        hc.elim (hrest c rfl).2.2.1 (hrest c rfl).2.2.2
      rw [List.nil_append, readFloatEnd, if_neg hmark]
      exact scaledNumber_append (s := []) h
  | cons c s =>
    rw [List.cons_append, readFloatEnd]
    rw [readFloatEnd] at h
    split at h
    · next hmark =>
      rw [if_pos hmark]
      exact readExponent_append hrest h
    · next hmark =>
      rw [if_neg hmark]
      exact scaledNumber_append h

theorem readFraction_append (hrest : EndsNumber rest)
    (h : readFraction negative significand exponent s = .ok (n, more)) :
    readFraction negative significand exponent (s ++ rest) = .ok (n, more ++ rest) := by
  cases s with
  | nil => cases h
  | cons c s =>
    unfold readFraction at h ⊢
    rw [hrest.takeDigits_append, List.cons_append]
    dsimp only at h ⊢
    split at h
    · next hc =>
      rw [if_pos hc]
      have hlength : (c :: (s ++ rest)).length -
          ((takeDigits significand (c :: s)).2 ++ rest).length =
          (c :: s).length - (takeDigits significand (c :: s)).2.length := by
        rw [← List.cons_append, List.length_append, List.length_append]
        omega
      rw [hrest.dropWhile_append, hlength]
      exact readFloatEnd_append hrest h
    · cases h

theorem readNumberEnd_of_endsNumber {rest : List Char} (h : EndsNumber rest) (negative : Bool)
    (n : Nat) : readNumberEnd negative n rest = .ok (signedNumber negative n, rest) := by
  cases rest with
  | nil => rfl
  | cons c rest =>
    obtain ⟨hdigit, hpoint, he, hE⟩ := h c rfl
    unfold readNumberEnd
    split
    · next heq =>
      cases heq
      exact absurd rfl hpoint
    · next heq =>
      cases heq
      rw [if_neg (by simp [he, hE]), if_neg (by simp [hdigit])]
    · next heq => cases heq

theorem EndsNumber.append_ne_point (hrest : EndsNumber rest) (h : ∀ t, s ≠ '.' :: t)
    (t : List Char) : s ++ rest ≠ '.' :: t := by
  cases s with
  | nil =>
    rintro rfl
    exact (hrest '.' rfl).2.1 rfl
  | cons c s =>
    intro heq
    cases heq
    exact h s rfl

theorem readNumberEnd_append (hrest : EndsNumber rest)
    (h : readNumberEnd negative significand s = .ok (n, more)) :
    readNumberEnd negative significand (s ++ rest) = .ok (n, more ++ rest) := by
  unfold readNumberEnd at h
  split at h
  · exact readFraction_append hrest h
  · next c s hdot =>
    rw [List.cons_append]
    unfold readNumberEnd
    split
    · next heq =>
      cases heq
      exact (hdot rfl).elim
    · next heq =>
      cases heq
      split at h
      · next hmark =>
        rw [if_pos hmark]
        exact readExponent_append hrest h
      · next hmark =>
        rw [if_neg hmark]
        split at h
        · next hdigit =>
          rw [if_pos hdigit, ← List.cons_append, hrest.takeWhile_append, hrest.dropWhile_append]
          dsimp only at h ⊢
          split at h
          · next t ht =>
            rw [ht]
            exact readFraction_append hrest h
          · next hne =>
            split
            · next t ht => exact absurd ht (hrest.append_ne_point hne t)
            · exact readFloatEnd_append hrest h
        · next hdigit =>
          cases h
          rw [if_neg hdigit]
          rfl
    · next heq => cases heq
  · cases h
    exact readNumberEnd_of_endsNumber hrest negative significand

theorem readNumber_zero (hs : ∀ c ∈ s.head?, isDigit c = false) :
    readNumber negative ('0' :: s) = readNumberEnd negative 0 s := by
  unfold readNumber
  cases s with
  | nil => rfl
  | cons c s => exact if_neg (by simp [hs c rfl])

/-- What is read of a number does not depend on what comes after it. -/
theorem readNumber_append (hrest : EndsNumber rest)
    (h : readNumber negative s = .ok (n, more)) :
    readNumber negative (s ++ rest) = .ok (n, more ++ rest) := by
  unfold readNumber at h
  split at h
  · cases h
  · next s =>
    cases s with
    | nil => 
      exact (readNumber_zero fun c hc => (hrest c hc).1).trans (readNumberEnd_append hrest h)
    | cons c s =>
      dsimp only at h
      split at h
      · cases h
      · next hc =>
        refine (readNumber_zero (s := c :: (s ++ rest)) ?_).trans (readNumberEnd_append hrest h)
        intro d hd
        cases hd
        simpa using hc
  · next c s hzero =>
    split at h
    · next hc =>
      show readNumber negative (c :: (s ++ rest)) = _
      rw [readNumber, if_pos hc, ← List.cons_append, hrest.takeDigits_append]
      · exact readNumberEnd_append hrest h
      · exact hzero
    · cases h

end

/-- A number starts with a digit. -/
theorem exists_of_readNumber {negative : Bool} {s more : List Char} {n : Number}
    (h : readNumber negative s = .ok (n, more)) : ∃ c t, s = c :: t ∧ isDigit c = true := by
  unfold readNumber at h
  split at h
  · cases h
  · exact ⟨_, _, rfl, rfl⟩
  · next c t hzero =>
    split at h
    · next hc => exact ⟨c, t, rfl, hc⟩
    · cases h

/-- What was read, when nothing is left. -/
def atEnd? (result : Except Fault (Number × List Char)) : Option Number :=
  match result with
  | .ok (n, []) => some n
  | _ => none

theorem atEnd?_eq_some_iff {result : Except Fault (Number × List Char)} {n : Number} :
    atEnd? result = some n ↔ result = .ok (n, []) := by
  unfold atEnd?
  constructor
  · intro h
    split at h
    · cases h
      rfl
    · cases h
  · rintro rfl
    rfl

/-- The number that a text is read as, when it is one as a whole. -/
def soleNumber? (s : List Char) : Option Number :=
  match s with
  | '-' :: digits => atEnd? (readNumber true digits)
  | _ => atEnd? (readNumber false s)

/-- A number is a minus sign with digits or digits alone. -/
theorem cases_of_soleNumber? {s : List Char} {n : Number} (h : soleNumber? s = some n) :
    (∃ digits, s = '-' :: digits ∧ readNumber true digits = .ok (n, [])) ∨
      readNumber false s = .ok (n, []) := by
  unfold soleNumber? at h
  split at h
  · next digits => exact .inl ⟨digits, rfl, atEnd?_eq_some_iff.1 h⟩
  · exact .inr (atEnd?_eq_some_iff.1 h)

/-! ## Whole numbers -/

/-- Puts digits onto a number. -/
def withDigits (n : Nat) (digits : List Char) : Nat :=
  digits.foldl (fun n c => 10 * n + digitValue c) n

theorem le_withDigits (n : Nat) (digits : List Char) : n ≤ withDigits n digits := by
  induction digits generalizing n with
  | nil => exact Nat.le_refl n
  | cons c digits ih =>
    refine Nat.le_trans ?_ (ih (10 * n + digitValue c))
    omega

theorem takeDigits_of_digits {digits : List Char} (hd : ∀ c ∈ digits, isDigit c = true) {n : Nat}
    (hn : withDigits n digits ≤ maxWord) : takeDigits n digits = (withDigits n digits, []) := by
  induction digits generalizing n with
  | nil => rfl
  | cons c digits ih =>
    obtain ⟨hc, hd⟩ := List.forall_mem_cons.1 hd
    have hnext : 10 * n + digitValue c ≤ maxWord := Nat.le_trans (le_withDigits _ digits) hn
    rw [takeDigits, if_pos hc]
    dsimp only
    rw [if_pos hnext]
    exact ih hd hn

theorem exists_digits (n : Nat) :
    ∃ c digits, digitsOfNatural n = c :: digits ∧ isDigit c = true := by
  obtain ⟨c, digits, hdigits⟩ : ∃ c digits, digitsOfNatural n = c :: digits :=
    List.exists_cons_of_ne_nil Nat.toDigits_ne_nil
  exact ⟨c, digits, hdigits, isDigit_of_mem_digits (hdigits ▸ List.mem_cons_self)⟩

/-- The digits of a number read back as the number. -/
theorem readNumber_digits {n : Nat} (hn : n ≤ maxWord) (negative : Bool) :
    readNumber negative (digitsOfNatural n) = .ok (signedNumber negative n, []) := by
  by_cases h0 : n = 0
  · subst h0
    rfl
  · obtain ⟨c, digits, hdigits, hc⟩ := exists_digits n
    have hall : ∀ d ∈ c :: digits, isDigit d = true := fun d hd =>
      isDigit_of_mem_digits (hdigits ▸ hd)
    have hzero : c ≠ '0' := fun hc => head?_digits h0 (by rw [hdigits, hc]; rfl)
    have hvalue : withDigits 0 (c :: digits) = n := hdigits ▸ naturalOfDigits_digits n
    have htake := takeDigits_of_digits hall (n := 0) (by rw [hvalue]; exact hn)
    rw [hdigits, readNumber, if_pos hc, htake, hvalue]
    · rfl
    · rintro rfl
      exact hzero rfl

/-- A whole number that fits a word, with a sign or without, is read as it is. -/
theorem soleNumber?_whole {n : Int} (hlow : -(Nat.pow 2 63 : Int) ≤ n) (hhigh : n ≤ maxWord) :
    soleNumber? (Number.whole n).text = some (.whole n) := by
  obtain ⟨c, digits, hdigits, hc⟩ := exists_digits n.natAbs
  have hword : n.natAbs ≤ maxWord := by
    have hhalf : Nat.pow 2 63 ≤ maxWord := by decide
    omega
  have hread (negative : Bool) := readNumber_digits hword negative
  by_cases hn : n < 0
  · have hnumber : signedNumber true n.natAbs = .whole n := by
      rw [signedNumber, if_neg (by simp), if_neg (by omega)]
      exact congrArg Number.whole (by omega)
    rw [Number.text, wholeText, if_pos hn]
    exact atEnd?_eq_some_iff.2 (hnumber ▸ hread true)
  · have hnumber : signedNumber false n.natAbs = .whole n := by
      show Number.whole n.natAbs = _
      exact congrArg Number.whole (by omega)
    have hminus : c ≠ '-' := by
      rintro rfl
      exact absurd hc (by decide)
    rw [Number.text, wholeText, if_neg hn, hdigits]
    unfold soleNumber?
    split
    · next heq => exact absurd (List.cons.inj heq).1 hminus
    · exact atEnd?_eq_some_iff.2 (hnumber ▸ hdigits ▸ hread false)

/-- The number that is read where another one was written. -/
def Number.reread (n : Number) : Number := (soleNumber? n.text).getD n

theorem reread_whole {n : Int} (hlow : -(Nat.pow 2 63 : Int) ≤ n) (hhigh : n ≤ maxWord) :
    (Number.whole n).reread = .whole n := by
  rw [Number.reread, soleNumber?_whole hlow hhigh]
  rfl

end VideoScript.Json
