import Mathlib.Data.String.Basic
import Recast.Text.Utf8

/-!
The order of texts is the order of their bytes. Texts are compared by their characters, and UTF-8
was made so that comparing the encoded bytes has the same outcome (`utf8Encode_le_iff`).
-/

namespace Recast.Text

theorem toNat_bound (c : Char) : c.toNat < 0xD800 ∨ 0xDFFF < c.toNat ∧ c.toNat < 0x110000 := c.valid

/-- A first byte that carries the top of a number, and continuations for six bits each. -/
def multibyte (lead : Nat) : Nat → Nat → List Byte
  | 0, n => [.ofNat 8 (lead + n)]
  | more + 1, n => multibyte lead more (n / 0x40) ++ [continuation n]

theorem multibyte_eq_cons (lead more n : Nat) :
    ∃ tail, multibyte lead more n = .ofNat 8 (lead + n / 0x40 ^ more) :: tail := by
  induction more generalizing n with
  | zero => exact ⟨[], by rw [multibyte, Nat.pow_zero, Nat.div_one]⟩
  | succ more ih =>
    obtain ⟨tail, eq⟩ := ih (n / 0x40)
    exact ⟨tail ++ [continuation n],
      by rw [multibyte, eq, Nat.div_div_eq_div_mul, ← Nat.pow_succ', List.cons_append]⟩

theorem utf8EncodeChar_eq (c : Char) :
    utf8EncodeChar c =
      if c.toNat < 0x80 then multibyte 0 0 c.toNat
      else if c.toNat < 0x800 then multibyte 0xC0 1 c.toNat
      else if c.toNat < 0x10000 then multibyte 0xE0 2 c.toNat
      else multibyte 0xF0 3 c.toNat := by
  simp [utf8EncodeChar, multibyte, Nat.div_div_eq_div_mul]

/-- A smaller first byte decides. -/
theorem multibyte_lt_of_lead {lead lead' more more' m n : Nat}
    (less : lead + m / 0x40 ^ more < lead' + n / 0x40 ^ more')
    (fits : lead' + n / 0x40 ^ more' < 0x100) (xs ys : List Byte) :
    multibyte lead more m ++ xs < multibyte lead' more' n ++ ys := by
  obtain ⟨tail, eq⟩ := multibyte_eq_cons lead more m
  obtain ⟨tail', eq'⟩ := multibyte_eq_cons lead' more' n
  rw [eq, eq', List.cons_append, List.cons_append, List.cons_lt_cons_iff, BitVec.lt_def,
    BitVec.toNat_ofNat, BitVec.toNat_ofNat, Nat.mod_eq_of_lt fits,
    Nat.mod_eq_of_lt (Nat.lt_trans less fits)]
  exact .inl less

/-- Among encodings of one length the first byte that differs decides. -/
theorem multibyte_lt {lead more m n : Nat} (less : m < n) (fits : lead + n / 0x40 ^ more < 0x100)
    (xs ys : List Byte) : multibyte lead more m ++ xs < multibyte lead more n ++ ys := by
  induction more generalizing m n xs ys with
  | zero =>
    refine multibyte_lt_of_lead ?_ fits xs ys
    simpa using less
  | succ more ih =>
    simp only [multibyte, List.append_assoc]
    rcases Nat.lt_or_eq_of_le (Nat.div_le_div_right (c := 0x40) (Nat.le_of_lt less)) with top | top
    · refine ih top ?_ _ _
      rwa [Nat.div_div_eq_div_mul, ← Nat.pow_succ']
    · -- The numbers differ in their last six bits only.
      rw [top]
      refine List.append_left_lt (List.cons_lt_cons_iff.2 (.inl ?_))
      simp only [continuation, BitVec.lt_def, BitVec.toNat_ofNat]
      omega

theorem utf8EncodeChar_lt {c d : Char} (less : c < d) (xs ys : List Byte) :
    utf8EncodeChar c ++ xs < utf8EncodeChar d ++ ys := by
  have codes : c.toNat < d.toNat := less
  have bound := toNat_bound d
  rw [utf8EncodeChar_eq, utf8EncodeChar_eq]
  split_ifs <;>
    first
    | refine multibyte_lt codes ?_ xs ys; omega
    | refine multibyte_lt_of_lead ?_ ?_ xs ys <;> omega

theorem utf8EncodeChar_ne_nil (c : Char) : utf8EncodeChar c ≠ [] := by
  fun_cases utf8EncodeChar c <;> exact List.cons_ne_nil _ _

theorem flatMap_utf8EncodeChar_lt {cs ds : List Char} (less : List.Lex (· < ·) cs ds) :
    cs.flatMap utf8EncodeChar < ds.flatMap utf8EncodeChar := by
  induction less with
  | @nil d ds =>
    obtain ⟨byte, bytes, first⟩ := List.exists_cons_of_ne_nil (utf8EncodeChar_ne_nil d)
    rw [List.flatMap_cons, first]
    exact List.nil_lt_cons byte _
  | cons _ ih =>
    rw [List.flatMap_cons, List.flatMap_cons]
    exact List.append_left_lt ih
  | rel less =>
    rw [List.flatMap_cons, List.flatMap_cons]
    exact utf8EncodeChar_lt less _ _

theorem utf8Encode_lt {a b : String} (less : a < b) : utf8Encode a < utf8Encode b :=
  flatMap_utf8EncodeChar_lt (String.lt_iff_toList_lt.1 less)

/-- **Texts are in the order of their bytes.** -/
theorem utf8Encode_le_iff {a b : String} : utf8Encode a ≤ utf8Encode b ↔ a ≤ b := by
  constructor
  · intro le
    by_contra less
    exact le (utf8Encode_lt (not_le.1 less))
  · intro le
    rcases le.lt_or_eq with less | rfl
    · exact List.lt_asymm (utf8Encode_lt less)
    · exact List.lt_irrefl _

end Recast.Text
