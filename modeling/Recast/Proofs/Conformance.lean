import Mathlib.Data.List.Zip
import Recast.Proofs.Parts

/-!
What it means for a value to be of a type. `Value.Conforms` compares a value with a type all the way
down, and a value is well-typed if each of its nodes conforms to the type that it shows. A zero
value conforms to the type that it is the zero of.
-/

namespace Recast

namespace Value

/-- The value fits the type, and so does everything that the type declares a type for. -/
inductive Conforms : Value → Ty → Prop
  | any (v : Value) : Conforms v .any
  | scalar (s : Scalar) : Conforms (.scalar s) (.scalar s.kind)
  | map {key value : Ty} {entries : Entries} (keys : ∀ e ∈ entries, Conforms e.1 key)
      (values : ∀ e ∈ entries, Conforms e.2 value) :
      Conforms (.map key value entries) (.map key value)
  | struct {name : String} {fields : Fields} {types : List (String × Ty)}
      (names : fields.map (·.1) = types.map (·.1))
      (slots : ∀ p ∈ fields.zip types, Conforms p.1.2 p.2.2) :
      Conforms (.struct name fields) (.struct name types)
  | seq {item : Ty} {length : Option Nat} {items : List Value}
      (count : ∀ n, length = some n → items.length = n) (each : ∀ v ∈ items, Conforms v item) :
      Conforms (.seq item length items) (.seq item length)
  | pointer {pointee : Ty} {target : Value} (each : Conforms target pointee) :
      Conforms (.pointer pointee target) (.pointer pointee)
  | nilPointer (pointee : Ty) : Conforms (.nilPointer pointee) (.pointer pointee)

/-- Every node conforms to the type that it shows. -/
def WellTyped (v : Value) : Prop := v.Everywhere fun w => w.Conforms w.type

end Value

/-- The types agree, except that fields without one may have acquired it. -/
inductive Ty.Acquires : Ty → Ty → Prop
  | same (t : Ty) : Acquires t t
  | struct {name : String} {old new : List (String × Ty)} (names : old.map (·.1) = new.map (·.1))
      (fields : ∀ p ∈ old.zip new, p.1.2 ≠ .any → Acquires p.1.2 p.2.2) :
      Acquires (.struct name old) (.struct name new)

/-! ## Fields and their types -/

theorem mem_zip_swap {α β : Type} {xs : List α} {ys : List β} {p : α × β} :
    p.swap ∈ ys.zip xs ↔ p ∈ xs.zip ys := by
  rw [← List.zip_swap, List.mem_map]
  constructor
  · rintro ⟨q, hq, same⟩
    rwa [← Prod.swap_swap p, ← same, Prod.swap_swap]
  · intro hp
    exact ⟨p, hp, rfl⟩

theorem mem_zip_of_getElem? {α β : Type} {xs : List α} {ys : List β} {i : Nat} {x : α} {y : β}
    (hx : xs[i]? = some x) (hy : ys[i]? = some y) : (x, y) ∈ xs.zip ys :=
  List.mem_iff_getElem?.2 ⟨i, List.getElem?_zip_eq_some.2 ⟨hx, hy⟩⟩

theorem Fields.sorted_iff {holds : Ty → Value → Prop} {fields : Fields}
    {types : List (String × Ty)} :
    fields.Sorted holds (types.map (·.2)) (types.map (·.1)) ↔
      fields.map (·.1) = types.map (·.1) ∧ ∀ p ∈ fields.zip types, holds p.2.2 p.1.2 := by
  refine and_congr_right fun names => ?_
  have count : fields.length = types.length := by simpa using congrArg List.length names
  rw [List.forall₂_map_right_iff, List.forall₂_iff_zip]
  exact ⟨fun h p hp => h.2 hp, fun h => ⟨count, fun hp => h _ hp⟩⟩

namespace Value

theorem conforms_struct_iff {name : String} {fields : Fields} {types : List (String × Ty)} :
    (Value.struct name fields).Conforms (.struct name types) ↔
      fields.Sorted (fun t v => v.Conforms t) (types.map (·.2)) (types.map (·.1)) := by
  rw [Fields.sorted_iff]
  constructor
  · intro h
    cases h with
    | struct names slots => exact ⟨names, slots⟩
  · rintro ⟨names, slots⟩
    exact .struct names slots

theorem conforms_scalar_iff {s : Scalar} {k : ScalarKind} :
    (Value.scalar s).Conforms (.scalar k) ↔ s.kind = k := by
  constructor
  · intro h
    cases h
    rfl
  · rintro rfl
    exact .scalar s

theorem conforms_pointer_iff {pointee t : Ty} {target : Value} :
    (Value.pointer pointee target).Conforms (.pointer t) ↔ pointee = t ∧ target.Conforms t := by
  constructor
  · intro h
    cases h with
    | pointer each => exact ⟨rfl, each⟩
  · rintro ⟨rfl, each⟩
    exact .pointer each

theorem Conforms.eq_any_of_nil {t : Ty} (h : Value.nil.Conforms t) : t = .any := by
  cases h
  rfl

/-! ## Zero values -/

theorem conforms_zero (t : Ty) : t.zero.Conforms t := by
  induction t using Ty.partsInduction with
  | step t ih =>
    cases t with
    | any => exact .any _
    | scalar k =>
      have := Conforms.scalar k.zero
      rwa [ScalarKind.kind_zero] at this
    | map => exact .map (by simp) (by simp)
    | struct name types =>
      rw [Ty.zero, conforms_struct_iff, Ty.zeroFields_eq_map]
      refine ⟨by simp, ?_⟩
      rw [List.forall₂_map_left_iff, List.forall₂_map_right_iff, List.forall₂_same]
      exact fun f hf => ih f.2 (List.mem_map_of_mem hf)
    | seq item length =>
      cases length with
      | none => exact .seq (by simp) (by simp)
      | some n =>
        refine .seq (by simp) fun v hv => ?_
        rw [(List.mem_replicate.1 hv).2]
        exact ih item (List.mem_singleton_self item)
    | pointer pointee => exact .nilPointer pointee

theorem wellTyped_zero (t : Ty) : t.zero.WellTyped := by
  refine Everywhere.of_zero (fun u => ?_) t
  rw [Ty.type_zero]
  exact conforms_zero u

/-- Resetting a value leaves it in every type that it was in. -/
theorem Conforms.reset {v : Value} {t : Ty} (h : v.Conforms t) : v.reset.Conforms t := by
  induction h with
  | any v => exact .any _
  | scalar s => exact conforms_zero (.scalar s.kind)
  | map => exact conforms_zero (.map _ _)
  | @struct name fields types names slots ih =>
    rw [Value.reset, zero_type_struct, conforms_struct_iff, Fields.sorted_iff]
    refine ⟨by simpa [Function.comp_def] using names, fun p hp => ?_⟩
    simp only [List.zip_map_left, List.mem_map] at hp
    obtain ⟨q, hq, rfl⟩ := hp
    exact ih q hq
  | seq => exact conforms_zero (.seq _ _)
  | pointer => exact conforms_zero (.pointer _)
  | nilPointer pointee => exact conforms_zero (.pointer pointee)

/-! ## Well-typed values by kind -/

theorem conforms_struct_of_wellTyped {name : String} {fields : Fields}
    (h : ∀ f ∈ fields, f.2.WellTyped) :
    (Value.struct name fields).Conforms (Value.struct name fields).type := by
  rw [type, conforms_struct_iff, typeFields_eq_map]
  refine ⟨by simp, ?_⟩
  rw [List.map_map, List.forall₂_map_right_iff, List.forall₂_same]
  exact fun f hf => (h f hf).here

theorem wellTyped_struct {name : String} {fields : Fields} :
    (Value.struct name fields).WellTyped ↔ ∀ f ∈ fields, f.2.WellTyped := by
  rw [WellTyped, everywhere_struct]
  exact ⟨fun h => h.2, fun h => ⟨conforms_struct_of_wellTyped h, h⟩⟩

theorem Conforms.acquires {v : Value} {t : Ty} (h : v.Conforms t) (ht : t ≠ .any) :
    t.Acquires v.type := by
  induction h with
  | any => exact absurd rfl ht
  | @struct name fields types names slots ih =>
    rw [type, typeFields_eq_map]
    refine .struct (by simpa [Function.comp_def] using names.symm) fun p hp typed => ?_
    rw [List.zip_map_right, List.mem_map] at hp
    obtain ⟨q, hq, rfl⟩ := hp
    exact ih q.swap (mem_zip_swap.2 hq) typed
  | _ => exact .same _

/-- What conforms to the type that a value shows conforms to every type that the value does. -/
theorem Conforms.of_type {v w : Value} {t : Ty} (h : v.Conforms t) (hw : w.Conforms v.type) :
    w.Conforms t := by
  induction h generalizing w with
  | any => exact .any w
  | @struct name fields types names slots ih =>
    rw [type, typeFields_eq_map] at hw
    cases hw with
    | @struct _ fields' _ names' slots' =>
      have count : fields.length = types.length := by simpa using congrArg List.length names
      apply Conforms.struct
      · simpa [Function.comp_def, names] using names'
      · intro p hp
        obtain ⟨i, at_i⟩ := List.mem_iff_getElem?.1 hp
        obtain ⟨hf', ht⟩ := List.getElem?_zip_eq_some.1 at_i
        obtain ⟨f, hf⟩ : ∃ f, fields[i]? = some f := by
          have bound := (List.getElem?_eq_some_iff.1 ht).1
          exact ⟨fields[i], List.getElem?_eq_getElem (by omega)⟩
        apply ih (f, p.2) (mem_zip_of_getElem? hf ht)
        exact slots' _ (mem_zip_of_getElem? hf' (by rw [List.getElem?_map, hf, Option.map_some]))
  | _ => exact hw

end Value

end Recast
