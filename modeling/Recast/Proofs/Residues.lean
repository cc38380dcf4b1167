import Mathlib.Data.Int.ModEq
import Recast.Proofs.Ranges
import Recast.Scalar.Coerce

/-!
Integers modulo the width of their type. Two numbers are stored as one word just if they agree
modulo that power of two (`IntKind.wrap_eq_wrap_iff`), so a coercion between integer types keeps the
residue of the number and nothing else (`Value.coerce_int`). A wider type on the way keeps more of
the number than the destination asks for.
-/

namespace Recast

namespace IntKind

variable {k l : IntKind} {m n : Int}

/-! ## Words as residues -/

theorem wrap_eq_wrap_iff : k.wrap m = k.wrap n ↔ m ≡ n [ZMOD 2 ^ k.width] := by
  have power : (2 ^ k.width : Int) = (2 ^ k.width : Nat) := by push_cast; rfl
  rw [Int.ModEq, power]
  constructor
  · intro same
    have read : (k.wrap m).toInt = (k.wrap n).toInt := congrArg BitVec.toInt same
    rw [wrap, wrap, BitVec.toInt_ofInt, BitVec.toInt_ofInt] at read
    rw [← Int.bmod_emod, read, Int.bmod_emod]
  · intro same
    apply BitVec.eq_of_toNat_eq
    rw [wrap, wrap, BitVec.toNat_ofInt, BitVec.toNat_ofInt, same]

/-- What is read from the word of a number agrees with it. -/
theorem value_wrap_modEq (k : IntKind) (n : Int) : k.value (k.wrap n) ≡ n [ZMOD 2 ^ k.width] :=
  wrap_eq_wrap_iff.1 (k.wrap_value _)

/-- Numbers that agree modulo the width of a type agree modulo the width of a narrower one. -/
theorem modEq_of_width_le (h : l.width ≤ k.width) (same : m ≡ n [ZMOD 2 ^ k.width]) :
    m ≡ n [ZMOD 2 ^ l.width] :=
  same.of_dvd (pow_dvd_pow 2 h)

/-- **A type holds one number of each residue**, the one that its word stands for. -/
theorem holds_and_modEq_iff : k.Holds m ∧ m ≡ n [ZMOD 2 ^ k.width] ↔ m = k.value (k.wrap n) := by
  constructor
  · rintro ⟨held, same⟩
    rw [← wrap_eq_wrap_iff.2 same, value_wrap held]
  · rintro rfl
    exact ⟨k.holds_value _, k.value_wrap_modEq n⟩

/-- An integer that a wider type has held is the same in a narrower one. -/
theorem wrap_value_wrap (h : k.width ≤ l.width) (n : Int) :
    k.wrap (l.value (l.wrap n)) = k.wrap n :=
  wrap_eq_wrap_iff.2 (modEq_of_width_le h (l.value_wrap_modEq n))

/-! ## Words of 64 bits in between -/

/-- The word in 64 bits, with copies of its sign in front if the type has one, else with zeros. -/
def extend (k : IntKind) (word : k.Word) : BitVec 64 :=
  if k.signed then word.signExtend 64 else word.setWidth 64

theorem extend_eq_ofInt (k : IntKind) (word : k.Word) :
    k.extend word = BitVec.ofInt 64 (k.value word) := by
  unfold extend value
  split
  · rfl
  · rw [BitVec.ofInt_natCast, BitVec.ofNat_toNat]

/-- **The lowest bits of the extended word** are the word of the same number in any type. -/
theorem setWidth_extend (k l : IntKind) (word : k.Word) :
    (k.extend word).setWidth l.width = l.wrap (k.value word) := by
  -- To a width that is no larger, a word is extended with its sign as it is without.
  rw [extend_eq_ofInt, ← BitVec.signExtend_eq_setWidth_of_le _ l.width_le]
  apply BitVec.eq_of_toInt_eq
  rw [BitVec.signExtend, wrap, BitVec.toInt_ofInt, BitVec.toInt_ofInt, BitVec.toInt_ofInt,
    Int.bmod_bmod_of_dvd (Nat.pow_dvd_pow 2 l.width_le)]

end IntKind

/-! ## Coercion between integer types -/

namespace Value

/-- **Between integer types, coercion is arithmetic modulo the width.** Whatever the destination
holds, it receives the lowest bits of the source, extended to 64 bits. The number there is the only
one of its type that agrees with the source modulo the width, so it is the number of the source if
the type holds that one, and the way back leads to the source again. A type in between that is no
narrower than the destination changes nothing. -/
theorem coerce_int (k l : IntKind) (word : k.Word) (old : l.Word) :
    let src : Value := .scalar (.int k word)
    let dst : Value := .scalar (.int l old)
    (∃ new : l.Word, src.coerce dst = .ok (.scalar (.int l new)) ∧
      new = (k.extend word).setWidth l.width ∧
      (∀ m, l.Holds m ∧ m ≡ k.value word [ZMOD 2 ^ l.width] ↔ m = l.value new) ∧
      (l.Holds (k.value word) → l.value new = k.value word)) ∧
    (∀ (via : IntKind) (between : via.Word), l.width ≤ via.width →
      (do (← src.coerce (.scalar (.int via between))).coerce dst) = src.coerce dst) ∧
    (l.Holds (k.value word) → ∀ back : k.Word,
      (do (← src.coerce dst).coerce (.scalar (.int k back))) = .ok src) := by
  intro src dst
  have step (k l : IntKind) (word : k.Word) (old : l.Word) :
      (Value.scalar (.int k word)).coerce (.scalar (.int l old)) =
        .ok (.scalar (.int l (l.wrap (k.value word)))) := rfl
  refine ⟨⟨l.wrap (k.value word), step k l word old, ?_, ?_, ?_⟩, ?_, ?_⟩
  · exact (IntKind.setWidth_extend k l word).symm
  · exact fun m => IntKind.holds_and_modEq_iff
  · exact IntKind.value_wrap
  · intro via between wide
    calc (do (← src.coerce (.scalar (.int via between))).coerce dst)
        = .ok (.scalar (.int l (l.wrap (via.value (via.wrap (k.value word)))))) := rfl
      _ = .ok (.scalar (.int l (l.wrap (k.value word)))) := by
          rw [IntKind.wrap_value_wrap wide]
      _ = src.coerce dst := rfl
  · intro held back
    calc (do (← src.coerce dst).coerce (.scalar (.int k back)))
        = .ok (.scalar (.int k (k.wrap (l.value (l.wrap (k.value word)))))) := rfl
      _ = .ok src := by
          rw [IntKind.value_wrap held, IntKind.wrap_value]

/-- A negative number as an unsigned one, directly and by way of a wider type, and a number that is
at home in two types of eight and sixteen bits. -/
theorem coerce_int_signs :
    (IntKind.uint8.width ≤ IntKind.uint64.width ∧ IntKind.uint8.Holds 200) ∧
      (int .int16 (-300)).coerce (int .uint8 7) = .ok (int .uint8 212) ∧
      (do (← (int .int16 (-300)).coerce (int .uint64 7)).coerce (int .uint8 7)) =
        .ok (int .uint8 212) ∧
      (do (← (int .int16 200).coerce (int .uint8 7)).coerce (int .int16 7)) =
        .ok (int .int16 200) := by
  have wider : IntKind.uint8.width ≤ IntKind.uint64.width := by decide
  have inside : IntKind.uint8.Holds 200 := by decide
  obtain ⟨⟨new, made, narrowed, _⟩, through, _⟩ :=
    coerce_int .int16 .uint8 (IntKind.int16.wrap (-300)) (IntKind.uint8.wrap 7)
  obtain ⟨_, _, back⟩ := coerce_int .int16 .uint8 (IntKind.int16.wrap 200) (IntKind.uint8.wrap 7)
  obtain rfl : new = IntKind.uint8.wrap 212 := narrowed
  exact ⟨⟨wider, inside⟩, made, (through .uint64 (IntKind.uint64.wrap 7) wider).trans made,
    back inside (IntKind.int16.wrap 7)⟩

/-- A narrower type in between loses what the destination asks for. -/
example :
    (do (← (int .int16 (-300)).coerce (int .int8 7)).coerce (int .uint16 7)) =
        .ok (int .uint16 65492) ∧
      (int .int16 (-300)).coerce (int .uint16 7) = .ok (int .uint16 65236) :=
  ⟨rfl, rfl⟩

end Value

end Recast
