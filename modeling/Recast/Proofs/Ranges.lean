import Mathlib.Algebra.Group.Int.Defs
import Mathlib.Algebra.Group.Nat.Defs
import Recast.Number.Integer

/-!
The numbers that an integer type holds. What a word stands for is always held, and a number that is
held is stored as itself (`IntKind.value_wrap`).
-/

namespace Recast

theorem natCast_one_shiftLeft (n : Nat) : ((1 <<< n : Nat) : Int) = 2 ^ n := by
  rw [Nat.one_shiftLeft]
  push_cast
  rfl

namespace IntKind

variable {k : IntKind} {n : Int}

/-- The number lies from the least to the greatest one of the type. -/
def Holds (k : IntKind) (n : Int) : Prop := k.least ≤ n ∧ n ≤ k.greatest

instance (k : IntKind) (n : Int) : Decidable (k.Holds n) :=
  inferInstanceAs (Decidable (k.least ≤ n ∧ n ≤ k.greatest))

theorem holds_of_signed (h : k.signed = true) :
    k.Holds n ↔ -2 ^ (k.width - 1) ≤ n ∧ n < 2 ^ (k.width - 1) := by
  simp only [Holds, least, greatest, h, if_true, natCast_one_shiftLeft]
  omega

theorem holds_of_unsigned (h : k.signed = false) : k.Holds n ↔ 0 ≤ n ∧ n < 2 ^ k.width := by
  simp only [Holds, least, greatest, h, Bool.false_eq_true, if_false, natCast_one_shiftLeft]
  omega

theorem holds_value (k : IntKind) (word : k.Word) : k.Holds (k.value word) := by
  cases h : k.signed with
  | true =>
    rw [holds_of_signed h, value, if_pos h]
    exact ⟨word.le_toInt, word.toInt_lt⟩
  | false =>
    have bound : (word.toNat : Int) < (2 ^ k.width : Nat) := Int.ofNat_lt.2 word.isLt
    rw [holds_of_unsigned h, value, if_neg (by simp [h])]
    push_cast at bound
    exact ⟨Int.natCast_nonneg _, bound⟩

/-- A number that the type holds is stored as itself. -/
theorem value_wrap (h : k.Holds n) : k.value (k.wrap n) = n := by
  cases signed : k.signed with
  | true =>
    obtain ⟨low, high⟩ := (holds_of_signed signed).1 h
    rw [value, if_pos signed, wrap, BitVec.toInt_ofInt_eq_self k.width_pos low high]
  | false =>
    obtain ⟨low, high⟩ := (holds_of_unsigned signed).1 h
    have inside : n % (2 ^ k.width : Nat) = n := Int.emod_eq_of_lt low (by push_cast; exact high)
    rw [value, if_neg (by simp [signed]), wrap, BitVec.toNat_ofInt, inside,
      Int.toNat_of_nonneg low]

end IntKind

end Recast
