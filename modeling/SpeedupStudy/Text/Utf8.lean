/-
# Bytes and UTF-8

Files hold bytes. A text is written as UTF-8 and read back strictly (`decode?`), so a file that
is no UTF-8 is an error there. Logs and names that are only shown are read leniently
(`decodeLossy`): every longest start of a character that cannot go on becomes one U+FFFD.
-/

namespace SpeedupStudy

/-- The contents of a file, or a name as the file system stores it. -/
abbrev Bytes := List UInt8

namespace Utf8

/-- The UTF-8 form of a text. -/
def encode (s : String) : Bytes :=
  s.toByteArray.data.toList

/-- The text whose UTF-8 form these bytes are. -/
def decode? (bytes : Bytes) : Option String :=
  String.fromUTF8? ⟨bytes.toArray⟩

/-- Reading back what was written gives the text. -/
@[simp]
theorem decode?_encode (s : String) : decode? (encode s) = some s := by
  have bytes : (⟨(encode s).toArray⟩ : ByteArray) = s.toByteArray := by
    simp [encode]
  rw [decode?, bytes]
  simp only [String.fromUTF8?, dif_pos s.isValidUTF8]
  rfl

/-- The sign for bytes that are no character, U+FFFD. -/
def replacement : Char := Char.ofNat 0xFFFD

/-- A character of which some bytes are read: the bits so far, the number of bytes still owed,
and the range in which the next byte must lie. -/
structure Pending where
  bits : Nat
  owed : Nat
  low : UInt8
  high : UInt8

/-- The characters that a byte completes, and the character it leaves open. -/
structure Step where
  out : List Char
  pending : Option Pending

/-- A byte between characters. The narrow ranges after E0, ED, F0 and F4 shut out overlong
forms, surrogates and code points above U+10FFFF. -/
def start (b : UInt8) : Step :=
  let opened (bits owed : Nat) (low high : UInt8) : Step := ⟨[], some ⟨bits, owed, low, high⟩⟩
  if b < 0x80 then ⟨[Char.ofNat b.toNat], none⟩
  else if b < 0xC2 then ⟨[replacement], none⟩
  else if b < 0xE0 then opened (b.toNat - 0xC0) 1 0x80 0xBF
  else if b == 0xE0 then opened 0 2 0xA0 0xBF
  else if b == 0xED then opened 0xD 2 0x80 0x9F
  else if b < 0xF0 then opened (b.toNat - 0xE0) 2 0x80 0xBF
  else if b == 0xF0 then opened 0 3 0x90 0xBF
  else if b < 0xF4 then opened (b.toNat - 0xF0) 3 0x80 0xBF
  else if b == 0xF4 then opened 4 3 0x80 0x8F
  else ⟨[replacement], none⟩

/-- One byte. A byte that cannot continue an open character closes it as U+FFFD and is then
read as the start of the next one. -/
def step : Option Pending → UInt8 → Step
  | none, b => start b
  | some p, b =>
    if p.low ≤ b && b ≤ p.high then
      let bits := p.bits * 64 + (b.toNat - 0x80)
      if p.owed ≤ 1 then ⟨[Char.ofNat bits], none⟩
      else ⟨[], some ⟨bits, p.owed - 1, 0x80, 0xBF⟩⟩
    else ⟨replacement :: (start b).out, (start b).pending⟩

/-- The state of a lenient reading: the characters so far, the latest first, and the open one. -/
structure Reading where
  latestFirst : List Char := []
  pending : Option Pending := none

/-- A lenient reading after one more byte. -/
def Reading.next (r : Reading) (b : UInt8) : Reading :=
  let s := step r.pending b
  ⟨s.out.reverse ++ r.latestFirst, s.pending⟩

/-- The characters of a lenient reading at the end of the bytes. -/
def Reading.finish (r : Reading) : List Char :=
  match r.pending with
  | none => r.latestFirst.reverse
  | some _ => (replacement :: r.latestFirst).reverse

/-- The text of any bytes, with U+FFFD for what is no character. -/
def decodeLossy (bytes : Bytes) : List Char :=
  (bytes.foldl Reading.next {}).finish

end Utf8

end SpeedupStudy
