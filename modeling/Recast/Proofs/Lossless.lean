import Recast.Proofs.Natives

/-!
Nothing is lost between elements of native types and values (`Native.toValue_lossless`). An element
is read back from its value, and the value is of the native type. It is also well-typed at every
node, except inside the values that the element holds as they are (`Native.wellTyped_toValue`).
-/

namespace Recast.Native

/-- The element holds the value as it is. -/
def Holds : (t : Native) → t.Carrier → Value → Prop
  | .scalar _, _, _ => False
  | .value, v, w => w = v
  | .list t, (xs : List t.Carrier), w => ∃ x ∈ xs, t.Holds x w
  | .option t, (x : Option t.Carrier), w => ∃ y ∈ x, t.Holds y w
  | .hashMap k v, (entries : List (k.Carrier × v.Carrier)), w
  | .orderedMap k v, (entries : List (k.Carrier × v.Carrier)), w =>
    ∃ e ∈ entries, k.Holds e.1 w ∨ v.Holds e.2 w

/-- Values show the native type, unless they are elements themselves. -/
theorem type_toValue {t : Native} (h : t ≠ .value) (x : t.Carrier) :
    (t.toValue x).type = t.type := by
  cases t with
  | scalar k => exact congrArg Ty.scalar (Scalar.kind_ofCarrier k x)
  | value => exact absurd rfl h
  | list | hashMap | orderedMap => rfl
  | option t => cases x <;> rfl

/-! ## Well-typed values of elements -/

theorem wellTyped_list {t : Native} {xs : List t.Carrier} :
    ((list t).toValue xs).WellTyped ↔ ∀ x ∈ xs, (t.toValue x).WellTyped := by
  have written : (list t).toValue xs = .seq t.type none (xs.map t.toValue) := rfl
  rw [written, Value.wellTyped_seq, List.forall_mem_map]
  simp [conforms_toValue]

theorem wellTyped_option {t : Native} {x : Option t.Carrier} :
    ((option t).toValue x).WellTyped ↔ ∀ y ∈ x, (t.toValue y).WellTyped := by
  cases x with
  | none =>
    have written : (option t).toValue none = .nilPointer t.type := rfl
    rw [written, Value.WellTyped, everywhere_nilPointer]
    exact iff_of_true (.nilPointer t.type) (by simp)
  | some y =>
    have written : (option t).toValue (some y) = .pointer t.type (t.toValue y) := rfl
    rw [written, Value.wellTyped_pointer]
    simp [conforms_toValue]

theorem wellTyped_entries {k v : Native} (hk : k.ordered = true)
    {x : List (k.Carrier × v.Carrier)} (hx : (hashMap k v).Element x) :
    ((hashMap k v).toValue x).WellTyped ↔
      ∀ e ∈ x, (k.toValue e.1).WellTyped ∧ (v.toValue e.2).WellTyped := by
  rw [(toValue_map_of_element hk hx).2, Value.wellTyped_map, List.forall_mem_map]
  simp [conforms_toValue]

/-- **The value of an element is well-typed** if the values that the element holds are. -/
theorem wellTyped_toValue {t : Native} (ht : t.keyed = true) {x : t.Carrier} (hx : t.Element x) :
    (t.toValue x).WellTyped ↔ ∀ w, t.Holds x w → w.WellTyped := by
  -- The two kinds of maps write their entries in the same way, so they share this step.
  have entries : ∀ {k v : Native} {x : List (k.Carrier × v.Carrier)},
      (hashMap k v).keyed = true → (hashMap k v).Element x →
      (k.keyed = true → ∀ {x : k.Carrier}, k.Element x →
        ((k.toValue x).WellTyped ↔ ∀ w, k.Holds x w → w.WellTyped)) →
      (v.keyed = true → ∀ {x : v.Carrier}, v.Element x →
        ((v.toValue x).WellTyped ↔ ∀ w, v.Holds x w → w.WellTyped)) →
      (((hashMap k v).toValue x).WellTyped ↔ ∀ w, (hashMap k v).Holds x w → w.WellTyped) := by
    intro k v x ht hx keys values
    obtain ⟨hk, hv⟩ := Bool.and_eq_true_iff.1 ht
    rw [wellTyped_entries hk hx]
    constructor
    · rintro each w ⟨e, he, key | value⟩
      · exact (keys (keyed_of_ordered hk) (hx.1 e he).1).1 (each e he).1 w key
      · exact (values hv (hx.1 e he).2).1 (each e he).2 w value
    · intro held e he
      constructor
      · exact (keys (keyed_of_ordered hk) (hx.1 e he).1).2 fun w key => held w ⟨e, he, .inl key⟩
      · exact (values hv (hx.1 e he).2).2 fun w value => held w ⟨e, he, .inr value⟩
  induction t with
  | scalar k => exact iff_of_true (Value.wellTyped_scalar _) fun _ held => held.elim
  | value => exact ⟨fun typed w same => same ▸ typed, fun held => held x rfl⟩
  | list t ih =>
    refine wellTyped_list.trans ⟨?_, fun held y hy => ?_⟩
    · rintro each w ⟨y, hy, held⟩
      exact (ih ht (hx y hy)).1 (each y hy) w held
    · exact (ih ht (hx y hy)).2 fun w inside => held w ⟨y, hy, inside⟩
  | option t ih =>
    refine wellTyped_option.trans ⟨?_, fun held y hy => ?_⟩
    · rintro each w ⟨y, hy, held⟩
      exact (ih ht (hx y hy)).1 (each y hy) w held
    · exact (ih ht (hx y hy)).2 fun w inside => held w ⟨y, hy, inside⟩
  | hashMap k v ihKey ihValue => exact entries ht hx ihKey ihValue
  | orderedMap k v ihKey ihValue => exact entries ht hx.apart ihKey ihValue

/-! ## There and back -/

/-- **Nothing is lost.** An element is read back from its value with all entries of its maps,
whatever the order in which a map without one of its own lists them. The value conforms to the
native type, which it shows unless it is an element itself, and is well-typed at every node as far
as the values in the element are. -/
theorem toValue_lossless {t : Native} (ht : t.keyed = true) {x : t.Carrier} (hx : t.Element x) :
    t.ofValue (t.toValue x) = .ok x ∧ (t.toValue x).Conforms t.type ∧
      (t ≠ .value → (t.toValue x).type = t.type) ∧
      ((t.toValue x).WellTyped ↔ ∀ w, t.Holds x w → w.WellTyped) :=
  ⟨ofValue_toValue ht hx, conforms_toValue t x, fun typed => type_toValue typed x,
    wellTyped_toValue ht hx⟩

/-- Maps as keys, one of them within the other, and a value that is not what it declares. -/
theorem toValue_lossless_keys :
    let t : Native :=
      .hashMap (.orderedMap (.option (.scalar .string)) (.list (.scalar .bool))) (.option .value)
    let stray : Value := .seq (.scalar .bool) (some 2) []
    let x : t.Carrier :=
      [([(none, [true, false])], some stray), ([(none, [true, false]), (some "", [])], none)]
    t.keyed = true ∧ t.Element x ∧ t ≠ .value ∧ t.ofValue (t.toValue x) = .ok x ∧
      (t.toValue x).type = t.type ∧ (t.toValue x).Conforms t.type ∧ ¬(t.toValue x).WellTyped := by
  intro t stray x
  have element : t.Element x := by
    refine ⟨List.forall_mem_cons.2 ⟨⟨⟨?_, ?_⟩, ?_⟩, List.forall_mem_singleton.2 ⟨⟨?_, ?_⟩, ?_⟩⟩, ?_⟩
    · exact fun e _ => ⟨fun _ _ => trivial, fun _ _ => trivial⟩
    · exact List.pairwise_singleton _ _
    · exact fun _ _ => trivial
    · exact fun e _ => ⟨fun _ _ => trivial, fun _ _ => trivial⟩
    · exact List.pairwise_pair.2 rfl
    · exact fun _ _ => trivial
    · refine List.pairwise_pair.2 ?_
      simp [compare, compareLists, ScalarKind.compare]
  have typed : t ≠ .value := by simp [t]
  obtain ⟨back, conforms, shows, wellTyped⟩ := toValue_lossless rfl element
  refine ⟨rfl, element, typed, back, shows typed, conforms, fun every => ?_⟩
  have held : t.Holds x stray := ⟨_, List.mem_cons_self, .inr ⟨stray, rfl, rfl⟩⟩
  obtain ⟨count, -⟩ := Value.wellTyped_seq.1 (wellTyped.1 every stray held)
  cases count 2 rfl

end Recast.Native
