import Recast.Proofs.Parts
import Recast.Value.Equality

/-!
Equality of values is symmetric and transitive. It is no more than that: a value that holds NaN is
not equal to itself, and this is the only exception (`Value.same_self`).
-/

namespace Recast

namespace FloatKind

/-- Two patterns are equal as numbers if they are one number, or both zero. -/
theorem same_iff {k : FloatKind} {a b : k.Word} :
    k.same a b = true ↔ k.read a ≠ .nan ∧ k.read b ≠ .nan ∧
      (a = b ∨ (k.read a).isNonzero = false ∧ (k.read b).isNonzero = false) := by
  unfold same
  split
  · next h => simp [h]
  · next hb _ => simp [hb]
  · next ha hb => simp [ha, hb, Reading.isNonzero]
  · next notLeft notRight notZeros =>
    have apart : ¬((k.read a).isNonzero = false ∧ (k.read b).isNonzero = false) := by
      rintro ⟨ha, hb⟩
      cases hra : k.read a <;> simp [hra, Reading.isNonzero] at ha
      cases hrb : k.read b <;> simp [hrb, Reading.isNonzero] at hb
      subst ha hb
      exact notZeros _ _ _ _ hra hrb
    have left : k.read a ≠ .nan := fun h => notLeft h
    have right : k.read b ≠ .nan := fun h => notRight h
    simp [left, right, apart]

theorem same_symm {k : FloatKind} {a b : k.Word} (h : k.same a b = true) :
    k.same b a = true := by
  rw [same_iff] at h ⊢
  obtain ⟨ha, hb, h | ⟨za, zb⟩⟩ := h
  · exact ⟨hb, ha, Or.inl h.symm⟩
  · exact ⟨hb, ha, Or.inr ⟨zb, za⟩⟩

theorem same_trans {k : FloatKind} {a b c : k.Word} (h : k.same a b = true)
    (h' : k.same b c = true) : k.same a c = true := by
  rw [same_iff] at h h' ⊢
  obtain ⟨ha, -, h⟩ := h
  obtain ⟨-, hc, h'⟩ := h'
  refine ⟨ha, hc, ?_⟩
  rcases h with rfl | ⟨za, zb⟩
  · exact h'
  · rcases h' with rfl | ⟨-, zc⟩
    · exact Or.inr ⟨za, zb⟩
    · exact Or.inr ⟨za, zc⟩

end FloatKind

namespace Scalar

def isNaN : Scalar → Bool
  | .float k word => k.read word == .nan
  | _ => false

theorem same_symm {a b : Scalar} (h : a.same b = true) : b.same a = true := by
  cases a <;> cases b <;> simp only [same, Bool.false_eq_true] at h ⊢
  · exact BEq.symm h
  · simp only [Bool.and_eq_true, beq_iff_eq] at h ⊢
    exact ⟨h.1.symm, h.2.symm⟩
  · split at h
    · next same =>
      subst same
      simpa using FloatKind.same_symm h
    · cases h
  · exact BEq.symm h

theorem same_trans {a b c : Scalar} (h : a.same b = true) (h' : b.same c = true) :
    a.same c = true := by
  cases a <;> cases b <;> simp only [same, Bool.false_eq_true] at h <;>
    cases c <;> simp only [same, Bool.false_eq_true] at h' ⊢
  · simp_all
  · simp only [Bool.and_eq_true, beq_iff_eq] at h h' ⊢
    exact ⟨h.1.trans h'.1, h.2.trans h'.2⟩
  · split at h
    · next first =>
      subst first
      split at h'
      · next second =>
        subst second
        simpa using FloatKind.same_trans h h'
      · cases h'
    · cases h
  · simp_all

theorem same_self {s : Scalar} (h : s.isNaN = false) : s.same s = true := by
  cases s with
  | float k word =>
    have number : k.read word ≠ .nan := by simpa [isNaN] using h
    simpa [same] using FloatKind.same_iff.2 ⟨number, number, Or.inl rfl⟩
  | _ => simp [same]

end Scalar

namespace Value

mutual

theorem same_symm : ∀ {a b : Value}, a.same b = true → b.same a = true
  | .nil, b, h => by cases b <;> simp_all [same]
  | .scalar _, b, h => by
    cases b <;> simp only [same, Bool.false_eq_true] at h ⊢
    exact Scalar.same_symm h
  | .map _ _ a, b, h => by
    cases b <;> simp only [same, Bool.and_eq_true, beq_iff_eq, Bool.false_eq_true] at h ⊢
    exact ⟨⟨h.1.1.symm, h.1.2.symm⟩, sameEntries_symm h.2⟩
  | .struct _ a, b, h => by
    cases b <;> simp only [same, Bool.and_eq_true, beq_iff_eq, Bool.false_eq_true] at h ⊢
    exact ⟨h.1.symm, sameFields_symm h.2⟩
  | .seq _ _ a, b, h => by
    cases b <;> simp only [same, Bool.and_eq_true, beq_iff_eq, Bool.false_eq_true] at h ⊢
    exact ⟨⟨h.1.1.symm, h.1.2.symm⟩, sameItems_symm h.2⟩
  | .pointer _ a, b, h => by
    cases b <;> simp only [same, Bool.and_eq_true, beq_iff_eq, Bool.false_eq_true] at h ⊢
    exact ⟨h.1.symm, same_symm h.2⟩
  | .nilPointer _, b, h => by
    cases b <;> simp only [same, beq_iff_eq, Bool.false_eq_true] at h ⊢
    exact h.symm

theorem sameEntries_symm : ∀ {a b : Entries}, sameEntries a b = true → sameEntries b a = true
  | [], b, h => by cases b <;> simp_all [sameEntries]
  | (k, v) :: a, b, h => by
    rcases b with _ | ⟨⟨k', v'⟩, b⟩
    · simp [sameEntries] at h
    · simp only [sameEntries, Bool.and_eq_true] at h ⊢
      exact ⟨⟨same_symm h.1.1, same_symm h.1.2⟩, sameEntries_symm h.2⟩

theorem sameFields_symm : ∀ {a b : Fields}, sameFields a b = true → sameFields b a = true
  | [], b, h => by cases b <;> simp_all [sameFields]
  | (n, v) :: a, b, h => by
    rcases b with _ | ⟨⟨n', v'⟩, b⟩
    · simp [sameFields] at h
    · simp only [sameFields, Bool.and_eq_true, beq_iff_eq] at h ⊢
      exact ⟨⟨h.1.1.symm, same_symm h.1.2⟩, sameFields_symm h.2⟩

theorem sameItems_symm : ∀ {a b : List Value}, sameItems a b = true → sameItems b a = true
  | [], b, h => by cases b <;> simp_all [sameItems]
  | v :: a, b, h => by
    rcases b with _ | ⟨v', b⟩
    · simp [sameItems] at h
    · simp only [sameItems, Bool.and_eq_true] at h ⊢
      exact ⟨same_symm h.1, sameItems_symm h.2⟩

end

mutual

theorem same_trans :
    ∀ {a b c : Value}, a.same b = true → b.same c = true → a.same c = true
  | .nil, b, c, h, h' => by cases b <;> simp_all [same]
  | .scalar _, b, c, h, h' => by
    cases b <;> simp only [same, Bool.false_eq_true] at h
    cases c <;> simp only [same, Bool.false_eq_true] at h' ⊢
    exact Scalar.same_trans h h'
  | .map _ _ a, b, c, h, h' => by
    cases b <;> simp only [same, Bool.and_eq_true, beq_iff_eq, Bool.false_eq_true] at h
    cases c <;> simp only [same, Bool.and_eq_true, beq_iff_eq, Bool.false_eq_true] at h' ⊢
    exact ⟨⟨h.1.1.trans h'.1.1, h.1.2.trans h'.1.2⟩, sameEntries_trans h.2 h'.2⟩
  | .struct _ a, b, c, h, h' => by
    cases b <;> simp only [same, Bool.and_eq_true, beq_iff_eq, Bool.false_eq_true] at h
    cases c <;> simp only [same, Bool.and_eq_true, beq_iff_eq, Bool.false_eq_true] at h' ⊢
    exact ⟨h.1.trans h'.1, sameFields_trans h.2 h'.2⟩
  | .seq _ _ a, b, c, h, h' => by
    cases b <;> simp only [same, Bool.and_eq_true, beq_iff_eq, Bool.false_eq_true] at h
    cases c <;> simp only [same, Bool.and_eq_true, beq_iff_eq, Bool.false_eq_true] at h' ⊢
    exact ⟨⟨h.1.1.trans h'.1.1, h.1.2.trans h'.1.2⟩, sameItems_trans h.2 h'.2⟩
  | .pointer _ a, b, c, h, h' => by
    cases b <;> simp only [same, Bool.and_eq_true, beq_iff_eq, Bool.false_eq_true] at h
    cases c <;> simp only [same, Bool.and_eq_true, beq_iff_eq, Bool.false_eq_true] at h' ⊢
    exact ⟨h.1.trans h'.1, same_trans h.2 h'.2⟩
  | .nilPointer _, b, c, h, h' => by
    cases b <;> simp only [same, beq_iff_eq, Bool.false_eq_true] at h
    cases c <;> simp only [same, beq_iff_eq, Bool.false_eq_true] at h' ⊢
    exact h.trans h'

theorem sameEntries_trans : ∀ {a b c : Entries},
    sameEntries a b = true → sameEntries b c = true → sameEntries a c = true
  | [], b, c, h, h' => by cases b <;> simp_all [sameEntries]
  | (k, v) :: a, b, c, h, h' => by
    rcases b with _ | ⟨⟨k', v'⟩, b⟩ <;> simp only [sameEntries, Bool.false_eq_true] at h
    rcases c with _ | ⟨⟨k'', v''⟩, c⟩ <;> simp only [sameEntries, Bool.false_eq_true] at h'
    simp only [sameEntries, Bool.and_eq_true] at h h' ⊢
    exact ⟨⟨same_trans h.1.1 h'.1.1, same_trans h.1.2 h'.1.2⟩, sameEntries_trans h.2 h'.2⟩

theorem sameFields_trans : ∀ {a b c : Fields},
    sameFields a b = true → sameFields b c = true → sameFields a c = true
  | [], b, c, h, h' => by cases b <;> simp_all [sameFields]
  | (n, v) :: a, b, c, h, h' => by
    rcases b with _ | ⟨⟨n', v'⟩, b⟩ <;> simp only [sameFields, Bool.false_eq_true] at h
    rcases c with _ | ⟨⟨n'', v''⟩, c⟩ <;> simp only [sameFields, Bool.false_eq_true] at h'
    simp only [sameFields, Bool.and_eq_true, beq_iff_eq] at h h' ⊢
    exact ⟨⟨h.1.1.trans h'.1.1, same_trans h.1.2 h'.1.2⟩, sameFields_trans h.2 h'.2⟩

theorem sameItems_trans : ∀ {a b c : List Value},
    sameItems a b = true → sameItems b c = true → sameItems a c = true
  | [], b, c, h, h' => by cases b <;> simp_all [sameItems]
  | v :: a, b, c, h, h' => by
    rcases b with _ | ⟨v', b⟩ <;> simp only [sameItems, Bool.false_eq_true] at h
    rcases c with _ | ⟨v'', c⟩ <;> simp only [sameItems, Bool.false_eq_true] at h'
    simp only [sameItems, Bool.and_eq_true] at h h' ⊢
    exact ⟨same_trans h.1 h'.1, sameItems_trans h.2 h'.2⟩

end

theorem beq_trans {a b c : Value} (h : a == b) (h' : b == c) : a == c := same_trans h h'

theorem beq_comm (a b : Value) : (a == b) = (b == a) :=
  Bool.eq_iff_iff.2 ⟨same_symm, same_symm⟩

/-- Equal values are equal to the same values. -/
theorem beq_congr {a b : Value} (h : a == b) (c : Value) : (c == a) = (c == b) := by
  rw [Bool.eq_iff_iff]
  exact ⟨fun h' => beq_trans h' h, fun h' => beq_trans h' (same_symm h)⟩

/-! ## Reflexivity -/

def isNaN : Value → Bool
  | .scalar s => s.isNaN
  | _ => false

theorem sameEntries_self {entries : Entries}
    (h : ∀ e ∈ entries, e.1.same e.1 = true ∧ e.2.same e.2 = true) :
    sameEntries entries entries = true := by
  induction entries with
  | nil => simp [sameEntries]
  | cons e entries ih =>
    obtain ⟨⟨key, value⟩, rest⟩ := List.forall_mem_cons.1 h
    rcases e with ⟨k, v⟩
    simp only [sameEntries, Bool.and_eq_true]
    exact ⟨⟨key, value⟩, ih rest⟩

theorem sameFields_self {fields : Fields} (h : ∀ f ∈ fields, f.2.same f.2 = true) :
    sameFields fields fields = true := by
  induction fields with
  | nil => simp [sameFields]
  | cons f fields ih =>
    obtain ⟨head, rest⟩ := List.forall_mem_cons.1 h
    rcases f with ⟨name, v⟩
    simp only [sameFields, Bool.and_eq_true, beq_self_eq_true, true_and]
    exact ⟨head, ih rest⟩

theorem sameItems_self {items : List Value} (h : ∀ v ∈ items, v.same v = true) :
    sameItems items items = true := by
  induction items with
  | nil => simp [sameItems]
  | cons v items ih =>
    obtain ⟨head, rest⟩ := List.forall_mem_cons.1 h
    simp only [sameItems, Bool.and_eq_true]
    exact ⟨head, ih rest⟩

/-- **A value without NaN equals itself.** -/
theorem same_self {v : Value} (h : v.Everywhere fun w => w.isNaN = false) : v.same v = true := by
  induction v using partsInduction with
  | step v ih =>
    have part : ∀ c ∈ v.parts, c.same c = true := fun c hc => ih c hc (h.part hc)
    cases v with
    | nil => simp [same]
    | scalar s =>
      have number := h.here
      simpa [same] using Scalar.same_self number
    | map key value entries =>
      simp only [same, Bool.and_eq_true, beq_self_eq_true, true_and]
      apply sameEntries_self
      intro e he
      exact ⟨part _ (mem_parts_map.2 ⟨e, he, Or.inl rfl⟩),
        part _ (mem_parts_map.2 ⟨e, he, Or.inr rfl⟩)⟩
    | struct name fields =>
      simp only [same, Bool.and_eq_true, beq_self_eq_true, true_and]
      exact sameFields_self fun f hf => part _ (List.mem_map_of_mem hf)
    | seq item length items =>
      simp only [same, Bool.and_eq_true, beq_self_eq_true, true_and]
      exact sameItems_self part
    | pointer pointee target =>
      simp only [same, Bool.and_eq_true, beq_self_eq_true, true_and]
      exact part target (List.mem_singleton_self target)
    | nilPointer pointee => simp [same]

end Value

end Recast
