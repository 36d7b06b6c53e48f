/-!
# Reading bytes as text

UTF-8 gives a character one to four bytes. `decode?` reads a whole text or nothing; `decodeLossy`
reads every sequence of bytes, with U+FFFD for each longest stretch that begins a character but
does not complete it, and for each byte that begins none.
-/

set_option autoImplicit false

namespace VideoScript.Text

/-- The text that the bytes encode, when they are well formed. -/
def decode? (bytes : ByteArray) : Option String := String.fromUTF8? bytes

/-- The bytes of a text. -/
def encode (s : String) : ByteArray := s.toUTF8

theorem decode?_encode (s : String) : decode? (encode s) = some s := by
  rw [decode?, encode, String.fromUTF8?]
  exact dif_pos s.isValidUTF8

/-- The range in which the byte after a first byte must lie, and the number of bytes after it. -/
def continuation? (first : UInt8) : Option (UInt8 × UInt8 × Nat) :=
  if first < 0xC2 then none
  else if first < 0xE0 then some (0x80, 0xBF, 1)
  else if first = 0xE0 then some (0xA0, 0xBF, 2)
  else if first = 0xED then some (0x80, 0x9F, 2)
  else if first < 0xF0 then some (0x80, 0xBF, 2)
  else if first = 0xF0 then some (0x90, 0xBF, 3)
  else if first < 0xF4 then some (0x80, 0xBF, 3)
  else if first = 0xF4 then some (0x80, 0x8F, 3)
  else none

/-- The character that stands for bytes which encode none. -/
def replacement : Char := '\uFFFD'

/-- What the bytes of a character have given so far: the bits, the range of the next byte, and
how many bytes are still to come after it. -/
structure Partial where
  bits : Nat
  low : UInt8
  high : UInt8
  later : Nat

/-- Reads bytes one at a time; `open?` is the character that has begun. -/
def decodeLossyFrom (open? : Option Partial) : List UInt8 → List Char
  | [] => match open? with
    | none => []
    | some _ => [replacement]
  | b :: rest =>
    let fresh : Option Partial × List Char :=
      if b < 0x80 then (none, [Char.ofNat b.toNat])
      else match continuation? b with
        | none => (none, [replacement])
        | some (low, high, count) =>
          (some ⟨b.toNat % (if count = 1 then 32 else if count = 2 then 16 else 8), low, high,
            count - 1⟩, [])
    match open? with
    | none => fresh.2 ++ decodeLossyFrom fresh.1 rest
    | some p =>
      if p.low ≤ b ∧ b ≤ p.high then
        let bits := p.bits * 64 + b.toNat % 64
        if p.later = 0 then Char.ofNat bits :: decodeLossyFrom none rest
        else decodeLossyFrom (some ⟨bits, 0x80, 0xBF, p.later - 1⟩) rest
      else replacement :: (fresh.2 ++ decodeLossyFrom fresh.1 rest)

/-- The text of any bytes, with U+FFFD where they encode none. -/
def decodeLossy (bytes : ByteArray) : String := .ofList (decodeLossyFrom none bytes.toList)

end VideoScript.Text
