/-!
UTF-8. `utf8Encode` lists the bytes of a text. `utf8Decode` reads any bytes: whatever is not the
start of a well-formed character becomes U+FFFD, one for each longest beginning of a character that
breaks off.
-/

namespace Recast.Text

abbrev Byte := BitVec 8

def replacement : Char := '\uFFFD'

/-- A byte that carries six bits of a character. -/
def continuation (n : Nat) : Byte := .ofNat 8 (0x80 + n % 0x40)

def utf8EncodeChar (c : Char) : List Byte :=
  let n := c.toNat
  if n < 0x80 then [.ofNat 8 n]
  else if n < 0x800 then [.ofNat 8 (0xC0 + n / 0x40), continuation n]
  else if n < 0x10000 then
    [.ofNat 8 (0xE0 + n / 0x1000), continuation (n / 0x40), continuation n]
  else
    [.ofNat 8 (0xF0 + n / 0x40000), continuation (n / 0x1000), continuation (n / 0x40),
      continuation n]

def utf8Encode (s : String) : List Byte := s.toList.flatMap utf8EncodeChar

/-- What a first byte promises: its share of the code point, how many bytes follow, and the range
of the next one. The range excludes overlong forms, surrogates and what lies past U+10FFFF. -/
structure Lead where
  bits : Nat
  more : Nat
  low : Nat
  high : Nat

def Lead.ofByte? (b : Nat) : Option Lead :=
  if b < 0x80 then some ⟨b, 0, 0x80, 0xBF⟩
  else if b < 0xC2 then none
  else if b < 0xE0 then some ⟨b - 0xC0, 1, 0x80, 0xBF⟩
  else if b = 0xE0 then some ⟨0, 2, 0xA0, 0xBF⟩
  else if b = 0xED then some ⟨0xD, 2, 0x80, 0x9F⟩
  else if b < 0xF0 then some ⟨b - 0xE0, 2, 0x80, 0xBF⟩
  else if b = 0xF0 then some ⟨0, 3, 0x90, 0xBF⟩
  else if b < 0xF4 then some ⟨b - 0xF0, 3, 0x80, 0xBF⟩
  else if b = 0xF4 then some ⟨4, 3, 0x80, 0x8F⟩
  else none

/-- Reads the bytes that follow a first byte, and stops in front of one that does not fit. -/
def utf8Follow : (more low high bits : Nat) → List Byte → Char × List Byte
  | 0, _, _, bits, bytes => (Char.ofNat bits, bytes)
  | _ + 1, _, _, _, [] => (replacement, [])
  | more + 1, low, high, bits, b :: bytes =>
    if low ≤ b.toNat ∧ b.toNat ≤ high then
      utf8Follow more 0x80 0xBF (bits * 0x40 + b.toNat % 0x40) bytes
    else (replacement, b :: bytes)

theorem length_utf8Follow_le (more low high bits : Nat) (bytes : List Byte) :
    (utf8Follow more low high bits bytes).2.length ≤ bytes.length := by
  fun_induction utf8Follow more low high bits bytes <;> simp
  omega

def utf8Decode : List Byte → List Char
  | [] => []
  | b :: bytes =>
    match Lead.ofByte? b.toNat with
    | none => replacement :: utf8Decode bytes
    | some lead =>
      let next := utf8Follow lead.more lead.low lead.high lead.bits bytes
      next.1 :: utf8Decode next.2
termination_by bytes => bytes.length
decreasing_by
  · simp
  · exact Nat.lt_succ_of_le (length_utf8Follow_le ..)

end Recast.Text
