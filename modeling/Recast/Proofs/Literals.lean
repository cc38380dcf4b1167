import Mathlib.Algebra.Group.Int.Defs
import Mathlib.Algebra.Group.Nat.Defs
import Mathlib.Data.List.Basic
import Recast.Proofs.Grammar
import Recast.Proofs.Ranges
import Recast.Scalar.Coerce

/-!
The texts of scalars, read back. A number is written in decimal, without a base marker or a leading
zero that could be taken for one, so its literal denotes it (`IntegerLiteral.magnitude?_toDigits`).
Coercion of a scalar's text to the scalar's type is therefore the scalar again, for booleans,
integers and texts (`Scalar.coerce_text`).
-/

namespace Recast

namespace IntegerLiteral

/-! ## Decimal digits -/

theorem digit?_of_isDigit {c : Char} (h : c.isDigit = true) :
    digit? 10 c = some (c.toNat - '0'.toNat) := by
  have range : '0' ≤ c ∧ c ≤ '9' := by
    simp only [Char.isDigit, Bool.and_eq_true, decide_eq_true_eq] at h
    exact h
  have greatest : c.toNat ≤ '9'.toNat := range.2
  have small : c.toNat - '0'.toNat < 10 := by
    have zero : '0'.toNat = 48 := rfl
    have nine : '9'.toNat = 57 := rfl
    omega
  simp only [digit?, range, and_self, if_true, small]

theorem mapM_digit? {cs : List Char} (h : ∀ c ∈ cs, c.isDigit = true) :
    cs.mapM (digit? 10) = some (cs.map fun c => c.toNat - '0'.toNat) := by
  induction cs with
  | nil => rfl
  | cons c cs ih =>
    obtain ⟨head, tail⟩ := List.forall_mem_cons.1 h
    simp [List.mapM_cons, digit?_of_isDigit head, ih tail]

theorem ofDigits_map (cs : List Char) :
    ofDigits 10 (cs.map fun c => c.toNat - '0'.toNat) = Nat.ofDigitChars 10 cs 0 := by
  simp only [ofDigits, List.foldl_map, Nat.ofDigitChars_eq_foldl, Nat.mul_comm]

theorem noDoubled_of_notMem {cs : List Char} (h : '_' ∉ cs) : noDoubled cs = true := by
  induction cs with
  | nil => rfl
  | cons c cs ih =>
    simp only [List.mem_cons, not_or] at h
    obtain ⟨head, tail⟩ := h
    unfold noDoubled
    split
    · next same => exact absurd (List.cons.inj same).1.symm head
    · next same =>
      obtain ⟨-, rfl⟩ := List.cons.inj same
      exact ih tail
    · rfl

/-! ## Numerals -/

/-- A number that is not zero has no leading zero. -/
theorem head?_toDigits {n : Nat} (h : 0 < n) : (Nat.toDigits 10 n).head? ≠ some '0' := by
  induction n using Nat.strongRecOn with
  | ind n ih =>
    rw [Nat.toDigits_eq_if (by decide)]
    split
    · simpa [Nat.digitChar_eq_zero] using Nat.ne_of_gt h
    · next large =>
      have shorter := ih (n / 10) (by omega) (by omega)
      rw [List.head?_append_of_ne_nil _ Nat.toDigits_ne_nil]
      exact shorter

theorem ofUnsigned_toDigits (n : Nat) :
    Body.ofUnsigned (Nat.toDigits 10 n) = ⟨10, false, Nat.toDigits 10 n⟩ := by
  rcases Nat.eq_zero_or_pos n with rfl | positive
  · rfl
  · have head := head?_toDigits positive
    unfold Body.ofUnsigned
    split
    · next marked =>
      rw [marked] at head
      exact absurd rfl head
    · rfl

/-- **A number is read from its digits.** -/
theorem magnitude?_toDigits (n : Nat) : magnitude? (Nat.toDigits 10 n) = some n := by
  have digits : ∀ c ∈ Nat.toDigits 10 n, c.isDigit = true := fun c =>
    Nat.isDigit_of_mem_toDigits (by decide) (by decide)
  have plain : '_' ∉ Nat.toDigits 10 n := Nat.underscore_not_in_toDigits
  have separated : Body.separated ⟨10, false, Nat.toDigits 10 n⟩ = true := by
    have last : (Nat.toDigits 10 n).getLast? ≠ some '_' := fun same =>
      plain (List.mem_of_getLast? same)
    have first : (Nat.toDigits 10 n).head? ≠ some '_' := fun same =>
      plain (List.mem_of_head? same)
    simp [Body.separated, noDoubled_of_notMem plain, last, first]
  have kept : (Nat.toDigits 10 n).filter (· != '_') = Nat.toDigits 10 n := by
    rw [List.filter_eq_self]
    intro c member
    have other : c ≠ '_' := fun same => plain (same ▸ member)
    simpa using other
  have read : ofDigits 10 ((Nat.toDigits 10 n).map fun c => c.toNat - '0'.toNat) = n := by
    rw [ofDigits_map, Nat.ofDigitChars_ten_toDigits]
  rw [magnitude?, ofUnsigned_toDigits, Body.value?, if_pos separated, kept, mapM_digit? digits]
  cases found : (Nat.toDigits 10 n).map fun c => c.toNat - '0'.toNat with
  | nil => exact absurd (List.map_eq_nil_iff.1 found) Nat.toDigits_ne_nil
  | cons d ds =>
    rw [found] at read
    exact congrArg some read

theorem splitSign_toDigits (n : Nat) :
    splitSign (Nat.toDigits 10 n) = (false, Nat.toDigits 10 n) := by
  have digit {c : Char} : c ∈ Nat.toDigits 10 n → c.isDigit = true :=
    Nat.isDigit_of_mem_toDigits (by decide) (by decide)
  unfold splitSign
  split
  · next signed => exact absurd (digit (signed ▸ List.mem_cons_self)) (by decide)
  · next signed => exact absurd (digit (signed ▸ List.mem_cons_self)) (by decide)
  · rfl

theorem toList_toString (n : Int) :
    (toString n).toList =
      if 0 ≤ n then Nat.toDigits 10 n.toNat else '-' :: Nat.toDigits 10 (-n).toNat := by
  rw [Int.toString_eq_repr, Int.repr_eq_if]
  split
  · rw [Nat.toList_repr]
  · rw [String.toList_append, Nat.toList_repr]
    rfl

theorem magnitude?_minus (cs : List Char) : magnitude? ('-' :: cs) = none :=
  Option.eq_none_iff_forall_ne_some.2 fun _ read => (magnitude?_eq_some.1 read).unsigned.2 rfl

/-- **An integer is read from its text**, if the bits hold it. -/
theorem parseSigned_toString (bits : Nat) (n : Int) :
    parseSigned bits (toString n) =
      if -2 ^ (bits - 1) ≤ n ∧ n < 2 ^ (bits - 1) then .ok n
      else .error (.outOfRange (toString n)) := by
  unfold parseSigned
  rw [toList_toString]
  by_cases positive : 0 ≤ n
  · have same : ((n.toNat : Nat) : Int) = n := by omega
    rw [if_pos positive, splitSign_toDigits]
    simp only [magnitude?_toDigits, Bool.false_eq_true, if_false, same, natCast_one_shiftLeft]
  · have same : -((-n).toNat : Int) = n := by omega
    rw [if_neg positive]
    simp only [splitSign, magnitude?_toDigits, if_true, same, natCast_one_shiftLeft]

/-- Without a sign only a number that is not negative is read. -/
theorem parseUnsigned_toString (bits : Nat) (n : Int) :
    parseUnsigned bits (toString n) =
      if n < 0 then .error (.malformed (toString n))
      else if n < 2 ^ bits then .ok n.toNat else .error (.outOfRange (toString n)) := by
  unfold parseUnsigned
  rw [toList_toString]
  by_cases negative : n < 0
  · have signed : ¬0 ≤ n := by omega
    rw [if_pos negative, if_neg signed, magnitude?_minus]
  · have plain : 0 ≤ n := by omega
    have inside : n.toNat < 1 <<< bits ↔ n < 2 ^ bits := by
      rw [← natCast_one_shiftLeft]
      omega
    rw [if_neg negative, if_pos plain, magnitude?_toDigits]
    simp only [inside]

end IntegerLiteral

/-! ## Scalars -/

/-- Why the text of a number is refused by a type that does not hold it. A type without signs does
not know a minus. -/
def IntKind.refusal (k : IntKind) (n : Int) : LiteralError :=
  if n < 0 ∧ k.signed = false then .malformed (toString n) else .outOfRange (toString n)

/-- **The text of a number is read as that number** by each type that holds it, and by no other. -/
theorem IntKind.parse_toString (k : IntKind) (n : Int) :
    k.parse (toString n) = if k.Holds n then .ok (k.wrap n) else .error (k.refusal n) := by
  have written : (toString n).isEmpty = false := by
    rw [String.isEmpty_eq_false_iff]
    intro empty
    have none := IntegerLiteral.toList_toString n
    rw [empty] at none
    split at none
    · exact Nat.toDigits_ne_nil none.symm
    · cases none
  rw [parse, written, if_neg Bool.false_ne_true]
  cases signed : k.signed with
  | true =>
    rw [if_pos rfl, IntegerLiteral.parseSigned_toString]
    by_cases held : k.Holds n
    · rw [if_pos held, if_pos ((holds_of_signed signed).1 held)]
      rfl
    · rw [if_neg held, if_neg (fun inside => held ((holds_of_signed signed).2 inside))]
      simp [refusal, signed, Except.map]
  | false =>
    rw [if_neg Bool.false_ne_true, IntegerLiteral.parseUnsigned_toString]
    by_cases negative : n < 0
    · have outside : ¬k.Holds n := fun held => by
        have := ((holds_of_unsigned signed).1 held).1
        omega
      rw [if_pos negative, if_neg outside]
      simp [refusal, signed, negative, Except.map]
    · have positive : 0 ≤ n := by omega
      rw [if_neg negative]
      by_cases small : n < 2 ^ k.width
      · have number : ((n.toNat : Nat) : Int) = n := by omega
        rw [if_pos small, if_pos ((holds_of_unsigned signed).2 ⟨positive, small⟩)]
        simp [Except.map, number]
      · rw [if_neg small, if_neg (fun held => small ((holds_of_unsigned signed).1 held).2)]
        simp [refusal, negative, Except.map]

theorem parseBool_toString (b : Bool) : parseBool (toString b) = .ok b := by
  cases b <;> decide

/-- The types whose values are told by their texts. -/
def ScalarKind.isTold : ScalarKind → Bool
  | .float _ => false
  | _ => true

/-- **A scalar is read from its text.** -/
theorem Scalar.coerce_text {s : Scalar} (h : s.kind.isTold) :
    (Scalar.string s.text).coerce s.kind = .ok s := by
  cases s with
  | bool b => simp [kind, coerce, toBool, text, parseBool_toString, Except.map]
  | int k word =>
    simp only [kind, coerce, toInt, text, IntKind.parse_toString, if_pos (k.holds_value word),
      IntKind.wrap_value]
    rfl
  | float => simp [kind, ScalarKind.isTold] at h
  | string s => rfl

theorem Scalar.coerce_numeral (k : IntKind) (n : Int) :
    (Scalar.string (toString n)).coerce (.int k) =
      if k.Holds n then .ok (.int k (k.wrap n)) else .error (k.refusal n) := by
  rw [coerce, toInt, IntKind.parse_toString]
  split <;> rfl

end Recast
