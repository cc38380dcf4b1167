import Mathlib.Data.List.Forall2
import Recast.Conversion.Nested

/-!
The trees that values and types are. `parts` lists what a node holds directly, `Everywhere` says
that a property holds at every node, and a part is lower than what it is a part of, so induction
may go from the parts to the whole. `way` counts the pointers that lie ahead of a destination.
-/

namespace Recast

/-- The types that a type is built from. -/
def Ty.parts : Ty → List Ty
  | .any | .scalar _ => []
  | .map key value => [key, value]
  | .struct _ fields => fields.map (·.2)
  | .seq item _ => [item]
  | .pointer pointee => [pointee]

/-- The type that pointers lead to. -/
def Ty.elem : Ty → Ty
  | .pointer pointee => pointee.elem
  | t => t

theorem Ty.elem_ne_pointer (t pointee : Ty) : t.elem ≠ .pointer pointee := by
  fun_induction Ty.elem t with
  | case1 _ ih => exact ih
  | case2 t h => exact h pointee

/-- The values that a value holds: keys and values, fields, items, or a target. -/
def Value.parts : Value → List Value
  | .nil | .scalar _ | .nilPointer _ => []
  | .map _ _ entries => entries.flatMap fun e => [e.1, e.2]
  | .struct _ fields => fields.map (·.2)
  | .seq _ _ items => items
  | .pointer _ target => [target]

theorem Value.mem_parts_map {c : Value} {key value : Ty} {entries : Entries} :
    c ∈ (Value.map key value entries).parts ↔ ∃ e ∈ entries, c = e.1 ∨ c = e.2 := by
  simp [parts]

theorem Ty.zeroFields_eq_map (fields : List (String × Ty)) :
    Ty.zeroFields fields = fields.map fun f => (f.1, f.2.zero) := by
  induction fields with
  | nil => rfl
  | cons f fields ih => simp [Ty.zeroFields, ih]

theorem Value.typeFields_eq_map (fields : Fields) :
    typeFields fields = fields.map fun f => (f.1, f.2.type) := by
  induction fields with
  | nil => rfl
  | cons f fields ih => simp [typeFields, ih]

/-- The zero value of a struct's type has the zero values of the types of its fields. -/
theorem Value.zero_type_struct (name : String) (fields : Fields) :
    (Value.struct name fields).type.zero =
      .struct name (fields.map fun f => (f.1, f.2.type.zero)) := by
  rw [type, Ty.zero, Ty.zeroFields_eq_map, typeFields_eq_map, List.map_map]
  rfl

theorem Ty.mem_parts_zero {t : Ty} {c : Value} (h : c ∈ t.zero.parts) :
    ∃ u ∈ t.parts, c = u.zero := by
  cases t with
  | any | scalar | map | pointer => simp [Ty.zero, Value.parts] at h
  | struct name fields =>
    simp only [Ty.zero, Ty.zeroFields_eq_map, Value.parts, List.map_map, List.mem_map] at h
    obtain ⟨f, hf, rfl⟩ := h
    exact ⟨f.2, List.mem_map_of_mem hf, rfl⟩
  | seq item length =>
    cases length with
    | none => simp [Ty.zero, Value.parts] at h
    | some n => exact ⟨item, by simp [Ty.parts], (List.mem_replicate.1 h).2⟩

theorem Ty.zero_ne_nil {t : Ty} (h : t ≠ .any) : t.zero ≠ .nil := by
  cases t with
  | any => exact absurd rfl h
  | seq item length => cases length <;> simp [Ty.zero]
  | _ => simp [Ty.zero]

theorem Value.type_ne_any {v : Value} (h : v ≠ .nil) : v.type ≠ .any := by
  cases v with
  | nil => exact absurd rfl h
  | _ => simp [Value.type]

/-! ## Heights -/

theorem Ty.height_le_heightFields {fields : List (String × Ty)} {f : String × Ty}
    (h : f ∈ fields) : f.2.height ≤ heightFields fields := by
  induction fields with
  | nil => simp at h
  | cons f' fields ih =>
    rcases List.mem_cons.1 h with rfl | h
    · simp only [heightFields]; omega
    · have := ih h
      simp only [heightFields]; omega

theorem Ty.height_lt_of_mem_parts {t u : Ty} (h : u ∈ t.parts) : u.height < t.height := by
  cases t with
  | any | scalar => simp [Ty.parts] at h
  | map key value =>
    simp only [Ty.parts, List.mem_cons, List.not_mem_nil, or_false] at h
    rcases h with rfl | rfl <;> simp only [Ty.height] <;> omega
  | struct name fields =>
    obtain ⟨f, hf, rfl⟩ := List.mem_map.1 h
    have := height_le_heightFields hf
    simp only [Ty.height]; omega
  | seq | pointer =>
    simp only [Ty.parts, List.mem_cons, List.not_mem_nil, or_false] at h
    subst h
    simp [Ty.height]

theorem Ty.partsInduction {motive : Ty → Prop}
    (step : ∀ t, (∀ u ∈ t.parts, motive u) → motive t) (t : Ty) : motive t := by
  induction h : t.height using Nat.strongRecOn generalizing t with
  | ind n ih =>
    subst h
    exact step t fun u hu => ih u.height (Ty.height_lt_of_mem_parts hu) u rfl

namespace Value

theorem height_le_heightEntries {entries : Entries} {e : Value × Value} (h : e ∈ entries) :
    e.1.height ≤ heightEntries entries ∧ e.2.height ≤ heightEntries entries := by
  induction entries with
  | nil => simp at h
  | cons e' entries ih =>
    rcases List.mem_cons.1 h with rfl | h
    · simp only [heightEntries]; omega
    · have := ih h
      simp only [heightEntries]; omega

theorem height_le_heightFields {fields : Fields} {f : String × Value} (h : f ∈ fields) :
    f.2.height ≤ heightFields fields := by
  induction fields with
  | nil => simp at h
  | cons f' fields ih =>
    rcases List.mem_cons.1 h with rfl | h
    · simp only [heightFields]; omega
    · have := ih h
      simp only [heightFields]; omega

theorem height_le_heightItems {items : List Value} {v : Value} (h : v ∈ items) :
    v.height ≤ heightItems items := by
  induction items with
  | nil => simp at h
  | cons v' items ih =>
    rcases List.mem_cons.1 h with rfl | h
    · simp only [heightItems]; omega
    · have := ih h
      simp only [heightItems]; omega

theorem height_lt_of_mem_parts {c v : Value} (h : c ∈ v.parts) : c.height < v.height := by
  cases v with
  | nil | scalar | nilPointer => simp [parts] at h
  | map key value entries =>
    obtain ⟨e, he, hc⟩ := mem_parts_map.1 h
    have := height_le_heightEntries he
    rcases hc with rfl | rfl <;> simp only [height] <;> omega
  | struct name fields =>
    obtain ⟨f, hf, rfl⟩ := List.mem_map.1 h
    have := height_le_heightFields hf
    simp only [height]; omega
  | seq item length items =>
    have member : c ∈ items := h
    have := height_le_heightItems member
    simp only [height]; omega
  | pointer pointee target =>
    rw [List.mem_singleton.1 h]
    simp only [height]; omega

theorem heightInduction {motive : Value → Prop}
    (step : ∀ v, (∀ c : Value, c.height < v.height → motive c) → motive v) (v : Value) :
    motive v := by
  induction h : v.height using Nat.strongRecOn generalizing v with
  | ind n ih =>
    subst h
    exact step v fun c hc => ih c.height hc c rfl

theorem partsInduction {motive : Value → Prop}
    (step : ∀ v, (∀ c ∈ v.parts, motive c) → motive v) (v : Value) : motive v := by
  induction v using heightInduction with
  | step v ih => exact step v fun c hc => ih c (height_lt_of_mem_parts hc)

theorem height_elem_le (v : Value) : v.elem.height ≤ v.height := by
  fun_induction elem v with
  | case1 _ _ ih => simp only [height]; omega
  | case2 => exact Nat.le_refl _

theorem height_lt_of_mem_parts_elem {c v : Value} (h : c ∈ v.elem.parts) : c.height < v.height :=
  Nat.lt_of_lt_of_le (height_lt_of_mem_parts h) (height_elem_le v)

end Value

mutual

/-- A nil pointer is higher than the zero value that it stands for. -/
theorem Ty.height_zero_le : ∀ t : Ty, t.zero.height ≤ t.height
  | .any | .scalar _ | .map .. | .pointer _ | .seq _ none => by
    simp [Ty.zero, Value.height, Ty.height, Value.heightEntries, Value.heightItems]
  | .struct _ fields => by
    have := Ty.heightFields_zeroFields_le fields
    simp only [Ty.zero, Value.height, Ty.height]; omega
  | .seq item (some n) => by
    have item_le := Ty.height_zero_le item
    have items_le : Value.heightItems (List.replicate n item.zero) ≤ item.zero.height := by
      induction n with
      | zero => simp [Value.heightItems]
      | succ n ih => simp only [List.replicate_succ, Value.heightItems]; omega
    simp only [Ty.zero, Value.height, Ty.height]; omega

theorem Ty.heightFields_zeroFields_le :
    ∀ fields : List (String × Ty),
      Value.heightFields (Ty.zeroFields fields) ≤ Ty.heightFields fields
  | [] => by simp [Ty.zeroFields, Value.heightFields]
  | (_, t) :: fields => by
    have head := Ty.height_zero_le t
    have tail := Ty.heightFields_zeroFields_le fields
    simp only [Ty.zeroFields, Value.heightFields, Ty.heightFields]; omega

end

/-! ## Pointers ahead -/

/-- The pointers that lie ahead, in the value and in the types that it declares. -/
def Ty.way : Ty → Nat
  | .pointer pointee => pointee.way + 1
  | _ => 0

@[inherit_doc Ty.way]
def Value.way : Value → Nat
  | .pointer pointee target => max pointee.way target.way + 1
  | .nilPointer pointee => pointee.way + 1
  | _ => 0

theorem Ty.way_zero (t : Ty) : t.zero.way ≤ t.way := by
  rcases t with _ | _ | _ | _ | ⟨_, _ | _⟩ | _ <;> simp [Ty.zero, Value.way, Ty.way]

theorem Value.way_type (v : Value) : v.type.way ≤ v.way := by
  cases v with
  | pointer => simp only [type, Ty.way, way]; omega
  | _ => simp [type, Ty.way, way]

/-! ## Properties of every node -/

inductive Ty.Everywhere (P : Ty → Prop) : Ty → Prop
  | intro {t : Ty} (here : P t) (below : ∀ u ∈ t.parts, Everywhere P u) : Everywhere P t

namespace Ty.Everywhere

variable {P : Ty → Prop} {t : Ty}

theorem here (h : t.Everywhere P) : P t := by cases h; assumption

theorem part (h : t.Everywhere P) {u : Ty} (hu : u ∈ t.parts) : u.Everywhere P := by
  cases h with
  | intro _ below => exact below u hu

theorem iff_parts : t.Everywhere P ↔ P t ∧ ∀ u ∈ t.parts, u.Everywhere P :=
  ⟨fun h => ⟨h.here, fun _ => h.part⟩, fun h => .intro h.1 h.2⟩

@[simp] theorem scalar_iff {k : ScalarKind} : (Ty.scalar k).Everywhere P ↔ P (.scalar k) := by
  rw [iff_parts]
  simp [parts]

@[simp] theorem map_iff {key value : Ty} : (Ty.map key value).Everywhere P ↔
    P (.map key value) ∧ key.Everywhere P ∧ value.Everywhere P := by
  rw [iff_parts]
  simp [parts]

@[simp] theorem struct_iff {name : String} {fields : List (String × Ty)} :
    (Ty.struct name fields).Everywhere P ↔
      P (.struct name fields) ∧ ∀ f ∈ fields, f.2.Everywhere P := by
  rw [iff_parts]
  simp only [parts, List.mem_map, forall_exists_index, and_imp, forall_apply_eq_imp_iff₂]

@[simp] theorem seq_iff {item : Ty} {length : Option Nat} :
    (Ty.seq item length).Everywhere P ↔ P (.seq item length) ∧ item.Everywhere P := by
  rw [iff_parts]
  simp [parts]

@[simp] theorem pointer_iff {pointee : Ty} :
    (Ty.pointer pointee).Everywhere P ↔ P (.pointer pointee) ∧ pointee.Everywhere P := by
  rw [iff_parts]
  simp [parts]

end Ty.Everywhere

inductive Value.Everywhere (P : Value → Prop) : Value → Prop
  | intro {v : Value} (here : P v) (below : ∀ c ∈ v.parts, Everywhere P c) : Everywhere P v

namespace Value.Everywhere

variable {P Q : Value → Prop} {v : Value}

theorem here (h : v.Everywhere P) : P v := by cases h; assumption

theorem part (h : v.Everywhere P) {c : Value} (hc : c ∈ v.parts) : c.Everywhere P := by
  cases h with
  | intro _ below => exact below c hc

theorem mono (h : v.Everywhere P) (hPQ : ∀ w, P w → Q w) : v.Everywhere Q := by
  induction h with
  | intro here _ ih => exact .intro (hPQ _ here) ih

theorem elem (h : v.Everywhere P) : v.elem.Everywhere P := by
  fun_induction Value.elem v with
  | case1 _ target ih => exact ih (h.part (List.mem_singleton_self target))
  | case2 => exact h

/-- The nodes of a zero value are the zero values of the nodes of its type. -/
theorem zero {t : Ty} {R : Ty → Prop} (h : t.Everywhere R)
    (hz : ∀ u : Ty, u.Everywhere R → P u.zero) : t.zero.Everywhere P := by
  induction h with
  | intro here below ih =>
    refine .intro (hz _ (.intro here below)) fun c hc => ?_
    obtain ⟨u, hu, rfl⟩ := Ty.mem_parts_zero hc
    exact ih u hu

theorem of_zero (hz : ∀ u : Ty, P u.zero) (t : Ty) : t.zero.Everywhere P := by
  have everywhere : t.Everywhere fun _ => True := by
    induction t using Ty.partsInduction with
    | step t ih => exact .intro trivial ih
  exact zero everywhere fun u _ => hz u

end Value.Everywhere

/-! The nodes of each kind of value. -/

section
variable {P : Value → Prop}

open Value

theorem everywhere_iff {v : Value} : v.Everywhere P ↔ P v ∧ ∀ c ∈ v.parts, c.Everywhere P :=
  ⟨fun h => ⟨h.here, fun _ => h.part⟩, fun h => .intro h.1 h.2⟩

theorem everywhere_of_parts_eq_nil {v : Value} (h : v.parts = []) : v.Everywhere P ↔ P v := by
  rw [everywhere_iff, h]
  simp only [List.not_mem_nil, false_implies, implies_true, and_true]

@[simp] theorem everywhere_scalar {s : Scalar} : (Value.scalar s).Everywhere P ↔ P (.scalar s) :=
  everywhere_of_parts_eq_nil rfl

@[simp] theorem everywhere_nilPointer {t : Ty} :
    (Value.nilPointer t).Everywhere P ↔ P (.nilPointer t) :=
  everywhere_of_parts_eq_nil rfl

@[simp] theorem everywhere_map {key value : Ty} {entries : Entries} :
    (Value.map key value entries).Everywhere P ↔
      P (.map key value entries) ∧ ∀ e ∈ entries, e.1.Everywhere P ∧ e.2.Everywhere P := by
  rw [everywhere_iff]
  refine and_congr_right fun _ => ⟨fun h e he => ⟨?_, ?_⟩, fun h c hc => ?_⟩
  · exact h _ (mem_parts_map.2 ⟨e, he, Or.inl rfl⟩)
  · exact h _ (mem_parts_map.2 ⟨e, he, Or.inr rfl⟩)
  · obtain ⟨e, he, rfl | rfl⟩ := mem_parts_map.1 hc
    · exact (h e he).1
    · exact (h e he).2

@[simp] theorem everywhere_struct {name : String} {fields : Fields} :
    (Value.struct name fields).Everywhere P ↔
      P (.struct name fields) ∧ ∀ f ∈ fields, f.2.Everywhere P := by
  rw [everywhere_iff]
  simp only [parts, List.mem_map, forall_exists_index, and_imp, forall_apply_eq_imp_iff₂]

@[simp] theorem everywhere_seq {item : Ty} {length : Option Nat} {items : List Value} :
    (Value.seq item length items).Everywhere P ↔
      P (.seq item length items) ∧ ∀ v ∈ items, v.Everywhere P := by
  rw [everywhere_iff]
  simp only [parts]

@[simp] theorem everywhere_pointer {pointee : Ty} {target : Value} :
    (Value.pointer pointee target).Everywhere P ↔
      P (.pointer pointee target) ∧ target.Everywhere P := by
  rw [everywhere_iff]
  simp only [parts, List.mem_singleton, forall_eq]

end

/-! ## Fields slot by slot -/

/-- The names are kept, and each field holds what its sort allows. -/
def Fields.Sorted {ι : Type} (holds : ι → Value → Prop) (sorts : List ι) (names : List String)
    (fields : Fields) : Prop :=
  fields.map (·.1) = names ∧ List.Forall₂ (fun f i => holds i f.2) fields sorts

theorem Fields.Sorted.exists_of_mem {ι : Type} {holds : ι → Value → Prop} {sorts : List ι}
    {names : List String} {fields : Fields} (h : fields.Sorted holds sorts names)
    {f : String × Value} (hf : f ∈ fields) : ∃ i ∈ sorts, holds i f.2 := by
  obtain ⟨-, h⟩ := h
  induction h with
  | nil => simp at hf
  | @cons g i fields sorts head _ ih =>
    rcases List.mem_cons.1 hf with rfl | hf
    · exact ⟨i, List.mem_cons_self, head⟩
    · obtain ⟨j, hj, held⟩ := ih hf
      exact ⟨j, List.mem_cons_of_mem i hj, held⟩

end Recast
