import Mathlib.Algebra.Group.Int.Defs
import Mathlib.Algebra.Group.Nat.Defs
import Recast.Number.Binary

/-!
Finite numbers stay finite in the 64-bit type (`FloatKind.isFinite_convert`). A pattern below the
one of infinity is finite, and rounding stays below it unless the number is close to the greatest
one. The 32-bit type has no number there.
-/

namespace Recast

def Reading.isFinite : Reading → Bool
  | .finite .. => true
  | _ => false

/-! ## Rounding -/

theorem roundDiv_le (num den : Nat) : roundDiv num den ≤ num / den + 1 := by
  simp only [roundDiv]
  split
  · omega
  · split <;> omega

theorem floorLog2_bounds (num den : Nat) :
    (num.log2 : Int) - den.log2 - 1 ≤ floorLog2 num den ∧
      floorLog2 num den ≤ (num.log2 : Int) - den.log2 := by
  simp only [floorLog2]
  split <;> omega

/-- A significand has at most two bits more than the fraction. -/
theorem significand_le {num den : Nat} (positive : den ≠ 0) {bits : Nat} {exponent : Int}
    (h : floorLog2 num den - bits ≤ exponent) :
    roundDiv (num <<< (-exponent).toNat) (den <<< exponent.toNat) ≤ 2 ^ (bits + 2) := by
  have logs := (floorLog2_bounds num den).1
  have room : num.log2 + 1 + (-exponent).toNat ≤ bits + 2 + (den.log2 + exponent.toNat) := by omega
  have quotient : num <<< (-exponent).toNat / den <<< exponent.toNat < 2 ^ (bits + 2) := by
    rw [Nat.shiftLeft_eq, Nat.shiftLeft_eq]
    apply Nat.div_lt_of_lt_mul
    calc num * 2 ^ (-exponent).toNat
        < 2 ^ (num.log2 + 1) * 2 ^ (-exponent).toNat :=
          Nat.mul_lt_mul_of_pos_right Nat.lt_log2_self (Nat.two_pow_pos _)
      _ = 2 ^ (num.log2 + 1 + (-exponent).toNat) := (Nat.pow_add ..).symm
      _ ≤ 2 ^ (bits + 2 + (den.log2 + exponent.toNat)) := Nat.pow_le_pow_right (by decide) room
      _ = 2 ^ den.log2 * 2 ^ exponent.toNat * 2 ^ (bits + 2) := by
          rw [Nat.pow_add, Nat.pow_add _ den.log2, Nat.mul_comm]
      _ ≤ den * 2 ^ exponent.toNat * 2 ^ (bits + 2) :=
          Nat.mul_le_mul_right _ (Nat.mul_le_mul_right _ (Nat.log2_self_le positive))
  have rounded := roundDiv_le (num <<< (-exponent).toNat) (den <<< exponent.toNat)
  omega

namespace FloatKind

/-! ## Patterns -/

theorem isFinite_read (k : FloatKind) (word : k.Word) :
    (k.read word).isFinite = true ↔ word.toNat % (1 <<< (k.width - 1)) < k.infinity := by
  simp only [read]
  split
  · next above => exact iff_of_false Bool.false_ne_true (by omega)
  · next bounded =>
    split
    · next same => exact iff_of_false Bool.false_ne_true (by omega)
    · next differs =>
      refine iff_of_true ?_ (by omega)
      split <;> rfl

/-- A pattern below infinity is finite, with either sign. -/
theorem isFinite_pack {k : FloatKind} (negative : Bool) {magnitude : Nat}
    (h : magnitude < k.infinity) : (k.read (k.pack negative magnitude)).isFinite = true := by
  have unsigned : (k.pack negative magnitude).toNat % (1 <<< (k.width - 1)) = magnitude := by
    rw [pack, BitVec.toNat_ofNat]
    cases k <;> cases negative <;> simp [width, infinity] at h ⊢ <;> omega
  rwa [isFinite_read, unsigned]

/-- What a finite number of 32 bits is made of. -/
theorem float32_bounds {word : FloatKind.float32.Word} {negative : Bool} {significand : Nat}
    {exponent : Int} (h : FloatKind.float32.read word = .finite negative significand exponent) :
    significand < 2 ^ 24 ∧ exponent ≤ 104 := by
  have bounded := (isFinite_read .float32 word).1 (by rw [h]; rfl)
  unfold read at h
  generalize word.toNat % (1 <<< (FloatKind.float32.width - 1)) = magnitude at h bounded
  rw [if_neg (Nat.lt_asymm bounded), if_neg (Nat.ne_of_lt bounded)] at h
  have biased : magnitude >>> float32.fractionBits ≤ 254 := by
    simp only [infinity, fractionBits, Nat.shiftRight_eq_div_pow] at bounded ⊢
    omega
  have fraction : magnitude % (1 <<< float32.fractionBits) < 2 ^ 23 := Nat.mod_lt _ (by decide)
  split at h
  all_goals
    cases h
    simp only [fractionBits, leastExponent] at biased fraction ⊢
    omega

/-- A number below `2 ^ 128` is far from the greatest one of 64 bits. -/
theorem isFinite_round (negative : Bool) {num den : Nat} (small : num < 2 ^ 128)
    (positive : den ≠ 0) :
    (FloatKind.float64.read (FloatKind.float64.round negative num den)).isFinite = true := by
  rw [round]
  split
  · exact isFinite_pack negative (by decide)
  · next nonzero =>
    refine isFinite_pack negative ?_
    simp only [infinity, fractionBits, leastExponent]
    generalize chosen : max (-1074) (floorLog2 num den - (52 : Nat)) = exponent
    have logs := (floorLog2_bounds num den).2
    have log_lt : num.log2 < 128 := (Nat.log2_lt nonzero).2 small
    have significand : roundDiv (num <<< (-exponent).toNat) (den <<< exponent.toNat) ≤
        2 ^ (52 + 2) := significand_le positive (by omega)
    have shifted : (exponent - -1074).toNat <<< 52 ≤ 1149 <<< 52 := by
      rw [Nat.shiftLeft_eq, Nat.shiftLeft_eq]
      exact Nat.mul_le_mul_right _ (by omega)
    omega

/-- **A finite number stays finite** as one of 64 bits. -/
theorem isFinite_convert {k : FloatKind} {word : k.Word} (h : (k.read word).isFinite = true) :
    (FloatKind.float64.read (k.convert .float64 word)).isFinite = true := by
  cases k with
  | float64 => exact h
  | float32 =>
    cases read : FloatKind.float32.read word with
    | nan => rw [read] at h; cases h
    | infinite => rw [read] at h; cases h
    | finite negative significand exponent =>
      obtain ⟨narrow, low⟩ := float32_bounds read
      have convert : FloatKind.float32.convert .float64 word =
          FloatKind.float64.round negative (significand <<< exponent.toNat)
            (1 <<< (-exponent).toNat) := by
        rw [FloatKind.convert, dif_neg (by decide), read]
        rfl
      rw [convert]
      refine isFinite_round negative ?_ ?_
      · calc significand <<< exponent.toNat
            = significand * 2 ^ exponent.toNat := Nat.shiftLeft_eq ..
          _ < 2 ^ 24 * 2 ^ exponent.toNat := Nat.mul_lt_mul_of_pos_right narrow (Nat.two_pow_pos _)
          _ = 2 ^ (24 + exponent.toNat) := (Nat.pow_add ..).symm
          _ ≤ 2 ^ 128 := Nat.pow_le_pow_right (by decide) (by omega)
      · rw [Nat.one_shiftLeft]
        exact Nat.ne_of_gt (Nat.two_pow_pos _)

end FloatKind

end Recast
