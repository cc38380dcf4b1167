import Recast.Conversion.Converter

/-!
Which of the standard recipes is chosen. Every choice is settled by the two values at hand:
`Recipe.chosen` says which action is run on them, and `Recipe.find?_standard` that this is what
looking through the list finds. Recipes for shapes never compete with those for exact types.
-/

namespace Recast

/-! ## Shapes and what pointers lead to -/

namespace Value

theorem elem_ne_pointer (v : Value) (pointee : Ty) (target : Value) :
    v.elem ≠ .pointer pointee target := by
  fun_induction elem v with
  | case1 _ _ ih => exact ih
  | case2 v h => exact h pointee target

theorem elem_eq_self {v : Value} (h : ∀ pointee target, v ≠ .pointer pointee target) :
    v.elem = v := by
  cases v with
  | pointer pointee target => exact absurd rfl (h pointee target)
  | _ => rfl

theorem shape_eq_map {v : Value} (h : v.shape = .map) :
    ∃ key value entries, v.elem = .map key value entries := by
  rw [← shape_elem] at h
  cases elem : v.elem with
  | map key value entries => exact ⟨key, value, entries, rfl⟩
  | pointer pointee target => exact absurd elem (elem_ne_pointer v pointee target)
  | _ => simp [elem, shape] at h

theorem shape_eq_struct {v : Value} (h : v.shape = .struct) :
    ∃ name fields, v.elem = .struct name fields := by
  rw [← shape_elem] at h
  cases elem : v.elem with
  | struct name fields => exact ⟨name, fields, rfl⟩
  | pointer pointee target => exact absurd elem (elem_ne_pointer v pointee target)
  | _ => simp [elem, shape] at h

theorem shape_eq_sequence {v : Value} (h : v.shape = .sequence) :
    ∃ item length items, v.elem = .seq item length items := by
  rw [← shape_elem] at h
  cases elem : v.elem with
  | seq item length items => exact ⟨item, length, items, rfl⟩
  | pointer pointee target => exact absurd elem (elem_ne_pointer v pointee target)
  | _ => simp [elem, shape] at h

end Value

namespace Recipe

/-- The action for values of these shapes, whatever pointers lead to them. -/
def byShape : Shape → Shape → Option Action
  | .nil, .map | .nil, .struct => some nilToZero
  | .map, .map => some mapToMap
  | .struct, .map => some structToMap
  | .map, .struct => some mapToStruct
  | .struct, .struct => some structToStruct
  | .sequence, .sequence => some sequenceToSequence
  | _, _ => none

/-- The standard action for a source and a destination. -/
def chosen : (src dst : Value) → Option Action
  | .scalar _, .scalar _ => some coerce
  | .scalar (.string _), .seq (.scalar (.int .uint8)) none _ => some textToBytes
  | .seq (.scalar (.int .uint8)) none _, .scalar (.string _) => some bytesToText
  | .seq (.scalar (.int .int32)) none _, .scalar (.string _) => some runesToText
  | src, dst => byShape src.shape dst.shape

theorem mem_scalars {recipe : Recipe} (h : recipe ∈ scalars) :
    ∃ source target : ScalarKind,
      recipe = ⟨.ofType (.scalar source), .ofType (.scalar target), coerce⟩ := by
  simp only [scalars, List.mem_flatMap, List.mem_map] at h
  obtain ⟨source, _, target, _, rfl⟩ := h
  exact ⟨source, target, rfl⟩

theorem scalar_mem_scalars (source target : ScalarKind) :
    ⟨.ofType (.scalar source), .ofType (.scalar target), coerce⟩ ∈ scalars := by
  simp only [scalars, List.mem_flatMap, List.mem_map]
  exact ⟨source, ScalarKind.mem_all source, target, ScalarKind.mem_all target, rfl⟩

theorem find?_scalars (src dst : Side) :
    (find? scalars src dst).map (·.action) =
      if src.type.isScalar && dst.type.isScalar then some coerce else none := by
  cases found : find? scalars src dst with
  | some recipe =>
    obtain ⟨source, target, rfl⟩ := mem_scalars (List.mem_of_find?_eq_some found)
    have accepted := List.find?_some found
    simp only [accepts, Matcher.accepts, Bool.and_eq_true, beq_iff_eq] at accepted
    simp [← accepted.1, ← accepted.2, Ty.isScalar]
  | none =>
    have refused := List.find?_eq_none.1 found
    split
    · next scalar =>
      obtain ⟨⟨source⟩, ⟨target⟩⟩ : (∃ k, src.type = .scalar k) ∧ ∃ k, dst.type = .scalar k := by
        revert scalar
        cases src.type <;> cases dst.type <;> simp [Ty.isScalar]
      have := refused _ (scalar_mem_scalars source target)
      simp_all [accepts, Matcher.accepts]
    · rfl

theorem accepts_ofType (source target : Ty) (action : Action) (src dst : Side) :
    accepts ⟨.ofType source, .ofType target, action⟩ src dst =
      decide (source = src.type ∧ target = dst.type) := by
  rw [Bool.decide_and]
  rfl

theorem find?_texts (src dst : Side) :
    (find? texts src dst).map (·.action) =
      if .string = src.type ∧ .slice (.scalar (.int .uint8)) = dst.type then some textToBytes
      else if .slice (.scalar (.int .uint8)) = src.type ∧ .string = dst.type then some bytesToText
      else if .slice (.scalar (.int .int32)) = src.type ∧ .string = dst.type then some runesToText
      else none := by
  simp only [find?, texts, List.find?_cons, List.find?_nil, accepts_ofType]
  by_cases toBytes : .string = src.type ∧ .slice (.scalar (.int .uint8)) = dst.type
  · rw [if_pos toBytes, decide_eq_true toBytes]
    rfl
  · rw [if_neg toBytes, decide_eq_false toBytes]
    by_cases fromBytes : .slice (.scalar (.int .uint8)) = src.type ∧ .string = dst.type
    · rw [if_pos fromBytes, decide_eq_true fromBytes]
      rfl
    · rw [if_neg fromBytes, decide_eq_false fromBytes]
      by_cases fromRunes : .slice (.scalar (.int .int32)) = src.type ∧ .string = dst.type
      · rw [if_pos fromRunes, decide_eq_true fromRunes]
        rfl
      · rw [if_neg fromRunes, decide_eq_false fromRunes]
        rfl

theorem find?_containers (src dst : Side) :
    (find? containers src dst).map (·.action) = byShape src.shape dst.shape := by
  obtain ⟨_, source⟩ := src
  obtain ⟨_, target⟩ := dst
  cases source <;> cases target <;> rfl

/-- **The choice.** Looking through the standard recipes finds the one for the values at hand. -/
theorem find?_standard (src dst : Value) :
    (find? standard src.side dst.side).map (·.action) = chosen src dst := by
  rw [standard, find?_append, find?_append, Option.map_or, Option.map_or, find?_scalars,
    find?_texts, find?_containers]
  cases src with
  | scalar s =>
    cases dst with
    | scalar d => simp [Value.side, Value.type, Ty.isScalar, chosen]
    | seq item length items =>
      by_cases text : s.kind = .string ∧ Ty.seq item length = .slice (.scalar (.int .uint8))
      · obtain ⟨hs, ht⟩ := text
        cases s <;> cases hs
        cases ht
        simp [Value.side, Value.type, Scalar.kind, Ty.isScalar, chosen]
      · have : chosen (.scalar s) (.seq item length items) = none := by
          unfold chosen
          split <;> simp_all [Scalar.kind, byShape, Value.shape]
        simp_all [Value.side, Value.type, Ty.isScalar, Value.shape, byShape, eq_comm]
    | _ => simp [Value.side, Value.type, Ty.isScalar, chosen]
  | seq item length items =>
    cases dst with
    | scalar d =>
      by_cases text : d.kind = .string ∧ (Ty.seq item length = .slice (.scalar (.int .uint8)) ∨
        Ty.seq item length = .slice (.scalar (.int .int32)))
      · obtain ⟨hd, ht⟩ := text
        cases d <;> cases hd
        rcases ht with ht | ht <;> cases ht <;>
          simp [Value.side, Value.type, Scalar.kind, Ty.isScalar, chosen]
      · have : chosen (.seq item length items) (.scalar d) = none := by
          unfold chosen
          split <;> simp_all [Scalar.kind, byShape, Value.shape]
        simp_all [Value.side, Value.type, Ty.isScalar, Value.shape, byShape, eq_comm]
        rw [if_neg fun h => (text h.2).1 h.1.1 h.1.2, if_neg fun h => (text h.2).2 h.1.1 h.1.2]
    | _ => simp [Value.side, Value.type, Ty.isScalar, chosen]
  | _ => simp [Value.side, Value.type, Ty.isScalar, chosen]

theorem byShape_nil_right (shape : Shape) : byShape shape .nil = none := by
  cases shape <;> rfl

theorem chosen_pointer_left (pointee : Ty) (src dst : Value) :
    chosen (.pointer pointee src) dst = byShape src.shape dst.shape := by
  simp [chosen, Value.shape]

theorem chosen_nilPointer_left (pointee : Ty) (dst : Value) :
    chosen (.nilPointer pointee) dst = byShape .nil dst.shape := by
  simp [chosen, Value.shape]

theorem chosen_pointer_right (pointee : Ty) (src dst : Value) :
    chosen src (.pointer pointee dst) = byShape src.shape dst.shape := by
  unfold chosen
  split <;> simp_all [Value.shape]

theorem chosen_nilPointer_right (pointee : Ty) (src : Value) :
    chosen src (.nilPointer pointee) = none := by
  unfold chosen
  split <;> simp_all [Value.shape, byShape_nil_right]

/-- No recipe for exact types is in the way of one for shapes. -/
theorem chosen_of_byShape {src dst : Value} {action : Action}
    (h : byShape src.shape dst.shape = some action) : chosen src dst = some action := by
  unfold chosen
  split <;> first | exact h | simp [Value.shape, byShape] at h

/-- A recipe for exact types is for values that are no pointers. -/
theorem exact_or_byShape {src dst : Value} {action : Action} (h : chosen src dst = some action) :
    (∃ s d, src = .scalar s ∧ dst = .scalar d ∧ action = coerce) ∨
    (∃ s old, src = .string s ∧ dst = .seq (.scalar (.int .uint8)) none old ∧
      action = textToBytes) ∨
    (∃ items s, src = .seq (.scalar (.int .uint8)) none items ∧ dst = .string s ∧
      action = bytesToText) ∨
    (∃ items s, src = .seq (.scalar (.int .int32)) none items ∧ dst = .string s ∧
      action = runesToText) ∨
    byShape src.shape dst.shape = some action := by
  unfold chosen at h
  split at h <;> simp_all

end Recipe

end Recast
