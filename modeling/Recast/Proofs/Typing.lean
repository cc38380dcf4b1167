import Recast.Proofs.Budget
import Recast.Proofs.Conformance

/-!
Conversion preserves typing. `typing` is the discipline of slots that have a declared type. With all
types admitted it says that well-typed sources and destinations give well-typed results, which
still conform to every type that the destination conformed to. Where no slot is untyped, the source
does not matter.
-/

namespace Recast

open Outcome

/-- Types of slots, closed under what is inside them. An untyped slot may come to hold anything. -/
structure Ty.Family (Q : Ty → Prop) : Prop where
  part : ∀ {t u : Ty}, Q t → u ∈ t.parts → Q u
  text : Q .string
  untyped : Q .any → ∀ t, Q t

theorem Ty.Family.all : Ty.Family fun _ => True := ⟨fun _ _ => trivial, trivial, fun _ _ => trivial⟩

namespace Value

theorem WellTyped.part {v c : Value} (h : v.WellTyped) (hc : c ∈ v.parts) : c.WellTyped :=
  Everywhere.part h hc

theorem wellTyped_map {key value : Ty} {entries : Entries} :
    (Value.map key value entries).WellTyped ↔
      ∀ e ∈ entries, (e.1.Conforms key ∧ e.1.WellTyped) ∧ e.2.Conforms value ∧ e.2.WellTyped := by
  rw [WellTyped, everywhere_map]
  constructor
  · rintro ⟨here, parts⟩ e he
    cases here with
    | map keys values => exact ⟨⟨keys e he, (parts e he).1⟩, values e he, (parts e he).2⟩
  · intro h
    exact ⟨.map (fun e he => (h e he).1.1) fun e he => (h e he).2.1,
      fun e he => ⟨(h e he).1.2, (h e he).2.2⟩⟩

theorem wellTyped_seq {item : Ty} {length : Option Nat} {items : List Value} :
    (Value.seq item length items).WellTyped ↔
      (∀ n, length = some n → items.length = n) ∧ ∀ v ∈ items, v.Conforms item ∧ v.WellTyped := by
  rw [WellTyped, everywhere_seq]
  constructor
  · rintro ⟨here, parts⟩
    cases here with
    | seq count each => exact ⟨count, fun v hv => ⟨each v hv, parts v hv⟩⟩
  · rintro ⟨count, h⟩
    exact ⟨.seq count fun v hv => (h v hv).1, fun v hv => (h v hv).2⟩

theorem wellTyped_pointer {pointee : Ty} {target : Value} :
    (Value.pointer pointee target).WellTyped ↔ target.Conforms pointee ∧ target.WellTyped := by
  rw [WellTyped, everywhere_pointer]
  refine and_congr_left fun _ => ⟨fun h => ?_, .pointer⟩
  cases h
  assumption

theorem wellTyped_scalar (s : Scalar) : (Value.scalar s).WellTyped :=
  everywhere_scalar.2 (.scalar s)

end Value

/-- A slot of a type that `Q` admits. It holds a well-typed value of its type. -/
structure TypedSlot (Q : Ty → Prop) (t : Ty) (v : Value) : Prop where
  admitted : Q t
  conforms : v.Conforms t
  wellTyped : v.WellTyped

namespace TypedSlot

variable {Q : Ty → Prop} {t : Ty}

theorem zero (ht : Q t) : TypedSlot Q t t.zero :=
  ⟨ht, Value.conforms_zero t, Value.wellTyped_zero t⟩

theorem untyped {s : Value} (hs : Q .any → s.WellTyped) (h : TypedSlot Q t .nil) :
    TypedSlot Q t s := by
  obtain ⟨ht, conforms, -⟩ := h
  obtain rfl := conforms.eq_any_of_nil
  exact ⟨ht, .any s, hs ht⟩

theorem reset {v : Value} (h : TypedSlot Q t v) : TypedSlot Q t v.reset :=
  ⟨h.admitted, h.conforms.reset, Value.wellTyped_zero _⟩

theorem scalar {s s' : Scalar} (h : TypedSlot Q t (.scalar s)) (same : s'.kind = s.kind) :
    TypedSlot Q t (.scalar s') := by
  obtain ⟨ht, conforms, -⟩ := h
  refine ⟨ht, ?_, Value.wellTyped_scalar s'⟩
  cases conforms with
  | any => exact .any _
  | scalar => exact same ▸ .scalar s'

variable (hQ : Ty.Family Q)
include hQ

/-- What lies inside an admitted slot is admitted, whether or not the slot itself is untyped. -/
theorem part_admitted {v : Value} {u : Ty} (h : TypedSlot Q t v) (hv : t ≠ .any → u ∈ t.parts) :
    Q u := by
  by_cases untyped : t = .any
  · subst untyped
    exact hQ.untyped h.admitted u
  · exact hQ.part h.admitted (hv untyped)

theorem map {key value : Ty} {old : Entries} (h : TypedSlot Q t (.map key value old)) :
    TypedSlot Q key key.zero ∧ TypedSlot Q value value.zero ∧
      (∀ e ∈ old, TypedSlot Q value e.2) ∧
      ∀ entries, (∀ e ∈ entries, TypedSlot Q key e.1 ∧ TypedSlot Q value e.2) →
        TypedSlot Q t (.map key value entries) := by
  have admitted : Q key ∧ Q value := by
    have parts : t ≠ .any → key ∈ t.parts ∧ value ∈ t.parts := by
      intro typed
      cases h.conforms with
      | any => exact absurd rfl typed
      | map => simp [Ty.parts]
    exact ⟨h.part_admitted hQ fun typed => (parts typed).1,
      h.part_admitted hQ fun typed => (parts typed).2⟩
  have entriesTyped := Value.wellTyped_map.1 h.wellTyped
  refine ⟨zero admitted.1, zero admitted.2, fun e he => ?_, fun entries hentries => ?_⟩
  · exact ⟨admitted.2, (entriesTyped e he).2.1, (entriesTyped e he).2.2⟩
  · refine ⟨h.admitted, ?_, Value.wellTyped_map.2 fun e he => ?_⟩
    · cases h.conforms with
      | any => exact .any _
      | map =>
        exact .map (fun e he => (hentries e he).1.conforms) fun e he => (hentries e he).2.conforms
    · obtain ⟨hkey, hvalue⟩ := hentries e he
      exact ⟨⟨hkey.conforms, hkey.wellTyped⟩, hvalue.conforms, hvalue.wellTyped⟩

theorem struct {name : String} {old : Fields} (h : TypedSlot Q t (.struct name old)) :
    ∃ sorts, Fields.Sorted (TypedSlot Q) sorts (old.map (·.1)) old ∧
      ∀ fields, Fields.Sorted (TypedSlot Q) sorts (old.map (·.1)) fields →
        TypedSlot Q t (.struct name fields) := by
  obtain ⟨ht, conforms, typed⟩ := h
  have fieldsTyped := Value.wellTyped_struct.1 typed
  have close : ∀ {sorts names fields}, Fields.Sorted (TypedSlot Q) sorts names fields →
      (Value.struct name fields).WellTyped := by
    intro sorts names fields h
    refine Value.wellTyped_struct.2 fun f hf => ?_
    obtain ⟨u, -, held⟩ := h.exists_of_mem hf
    exact held.wellTyped
  cases conforms with
  | any =>
    refine ⟨old.map fun _ => .any, ⟨rfl, ?_⟩, fun fields h => ⟨ht, .any _, close h⟩⟩
    rw [List.forall₂_map_right_iff, List.forall₂_same]
    exact fun f hf => ⟨ht, .any _, fieldsTyped f hf⟩
  | @struct _ _ types names slots =>
    refine ⟨types.map (·.2), ⟨rfl, ?_⟩, fun fields h => ⟨ht, ?_, close h⟩⟩
    · have paired := (Value.conforms_struct_iff.1 (@Value.Conforms.struct name _ _ names slots)).2
      rw [List.forall₂_iff_get] at paired ⊢
      refine ⟨paired.1, fun i hi hi' => ⟨?_, paired.2 i hi hi', ?_⟩⟩
      · have member := List.get_mem (types.map (·.2)) ⟨i, hi'⟩
        exact hQ.part ht (by simpa [Ty.parts] using member)
      · exact fieldsTyped _ (List.get_mem old ⟨i, hi⟩)
    · rw [Value.conforms_struct_iff]
      exact ⟨h.1.trans names, h.2.imp fun f u held => held.conforms⟩

theorem seq {item : Ty} {length : Option Nat} {old : List Value}
    (h : TypedSlot Q t (.seq item length old)) :
    TypedSlot Q item item.zero ∧ (∀ v ∈ old, TypedSlot Q item v) ∧
      ∀ items, (∀ v ∈ items, TypedSlot Q item v) →
        (∀ n, length = some n → old.length = n → items.length = n) →
          TypedSlot Q t (.seq item length items) := by
  have admitted : Q item := by
    refine h.part_admitted hQ fun typed => ?_
    cases h.conforms with
    | any => exact absurd rfl typed
    | seq => exact List.mem_singleton_self item
  obtain ⟨oldCount, itemsTyped⟩ := Value.wellTyped_seq.1 h.wellTyped
  refine ⟨zero admitted, fun v hv => ⟨admitted, (itemsTyped v hv).1, (itemsTyped v hv).2⟩, ?_⟩
  intro items hitems count
  have newCount : ∀ n, length = some n → items.length = n := fun n hn => count n hn (oldCount n hn)
  refine ⟨h.admitted, ?_, Value.wellTyped_seq.2 ⟨newCount, fun v hv => ?_⟩⟩
  · cases h.conforms with
    | any => exact .any _
    | seq => exact .seq newCount fun v hv => (hitems v hv).conforms
  · exact ⟨(hitems v hv).conforms, (hitems v hv).wellTyped⟩

theorem pointee_admitted {v : Value} {pointee : Ty} (h : TypedSlot Q t v)
    (hv : v.type = .pointer pointee) : Q pointee := by
  refine h.part_admitted hQ fun typed => ?_
  cases h.conforms with
  | any => exact absurd rfl typed
  | pointer | nilPointer =>
    cases hv
    exact List.mem_singleton_self _
  | _ => cases hv

omit hQ in
theorem around {v target : Value} {pointee : Ty} (h : TypedSlot Q t v)
    (hv : v.type = .pointer pointee) (ht : TypedSlot Q pointee target) :
    TypedSlot Q t (.pointer pointee target) := by
  refine ⟨h.admitted, ?_, Value.wellTyped_pointer.2 ⟨ht.conforms, ht.wellTyped⟩⟩
  cases h.conforms with
  | any => exact .any _
  | pointer | nilPointer =>
    cases hv
    exact .pointer ht.conforms
  | _ => cases hv

theorem pointer {pointee : Ty} {target : Value} (h : TypedSlot Q t (.pointer pointee target)) :
    TypedSlot Q pointee target ∧
      ∀ target', TypedSlot Q pointee target' → TypedSlot Q t (.pointer pointee target') := by
  obtain ⟨conforms, typed⟩ := Value.wellTyped_pointer.1 h.wellTyped
  exact ⟨⟨h.pointee_admitted hQ rfl, conforms, typed⟩, fun _ => h.around rfl⟩

theorem nilPointer {pointee : Ty} (h : TypedSlot Q t (.nilPointer pointee)) :
    TypedSlot Q pointee pointee.zero ∧
      ∀ target, TypedSlot Q pointee target → TypedSlot Q t (.pointer pointee target) :=
  ⟨zero (h.pointee_admitted hQ rfl), fun _ => h.around rfl⟩

end TypedSlot

/-- The slots of the types that `Q` admits. -/
def typing (Q : Ty → Prop) (hQ : Ty.Family Q) : Discipline Ty where
  Source s := Q .any → s.WellTyped
  Holds t v := TypedSlot Q t v
  Open _ := True
  source_part h hc any := (h any).part hc
  source_name name _ := Value.wellTyped_scalar (.string name)
  source_zero _ _ := Value.wellTyped_zero _
  text := ⟨.string, trivial, .zero hQ.text⟩
  untyped hs _ h := h.untyped hs
  reset h := h.reset
  scalar h same := h.scalar same
  map h := ⟨_, _, trivial, trivial, h.map hQ⟩
  struct h := (h.struct hQ).imp fun _ held => ⟨fun _ _ => trivial, held⟩
  seq h := ⟨_, trivial, h.seq hQ⟩
  pointer h := ⟨_, h.pointer hQ⟩
  nilPointer h := ⟨_, h.nilPointer hQ⟩

/-! ## Typing as a whole -/

/-- A slot of an admitted type stays one. Where no slot is untyped, the source may be anything. -/
theorem Settings.convert_typing (σ : Settings) {Q : Ty → Prop} (hQ : Ty.Family Q) {budget : Nat}
    {src dst dst' : Value} {t : Ty} (hs : Q .any → src.WellTyped) (hd : TypedSlot Q t dst)
    (h : (Context.standard σ).convert budget src dst = .done dst') : TypedSlot Q t dst' := by
  have kept : ((Context.standard σ).convert budget src dst).Ensures True ((typing Q hQ).Holds t) :=
    (typing Q hQ).convert_keeps budget hs (Or.inl trivial) hd
  exact kept.of_done h

/-- What a slot owes to the value that was in it: it stays well-typed and of every type that it was
of, and it shows the same type, up to what untyped fields have acquired. -/
structure Value.KeepsTyping (old new : Value) : Prop where
  wellTyped : new.WellTyped
  conforms : ∀ t, old.Conforms t → new.Conforms t
  acquires : old.type.Acquires new.type

/-- **Conversion preserves typing.** With the standard recipes alone, whatever the merge mode, a
typed slot converted from a well-typed source keeps its typing. -/
theorem Converter.Standard.keepsTyping {c : Converter} {options : CallOptions}
    (h : c.Standard options) {src dst : Value} (hs : src.WellTyped) (hd : dst.WellTyped)
    (typed : dst ≠ .nil) (dst' : Value) :
    (∀ budget, (c.context options).convert budget src dst = .done dst' → dst.KeepsTyping dst') ∧
      (c.convertWith options src dst = .done dst' → dst.KeepsTyping dst') := by
  have nested : ∀ budget, (c.context options).convert budget src dst = .done dst' →
      dst.KeepsTyping dst' := by
    intro budget converted
    rw [h.context_eq] at converted
    have kept : ∀ t, dst.Conforms t → TypedSlot (fun _ => True) t dst' := fun t ht =>
      Settings.convert_typing _ Ty.Family.all (fun _ => hs) ⟨trivial, ht, hd⟩ converted
    have same := (kept dst.type hd.here).conforms
    exact ⟨(kept .any (.any dst)).wellTyped, fun t ht => (kept t ht).conforms,
      same.acquires (Value.type_ne_any typed)⟩
  refine ⟨nested, fun converted => ?_⟩
  rw [h.convertWith_eq_done] at converted
  apply nested (budget src dst)
  rwa [h.context_eq, Settings.convert_eq_of_budget_le _ (Nat.le_refl _)]

/-- A field that held nothing takes on the type of what it is given. -/
theorem Converter.Standard.keepsTyping_of_untyped_field :
    (Value.struct "Row" [("id", .nil), ("name", .string "old")]).KeepsTyping
      (.struct "Row" [("id", .int .int 7), ("name", .string "old")]) := by
  have standard : ({} : Converter).Standard {} := ⟨rfl, rfl⟩
  have source : (Value.struct "Key" [("ID", .int .int 7)]).WellTyped := by
    rw [Value.wellTyped_struct]
    simpa using Value.wellTyped_scalar _
  have slot : (Value.struct "Row" [("id", .nil), ("name", .string "old")]).WellTyped := by
    rw [Value.wellTyped_struct]
    simpa using ⟨Value.wellTyped_zero .any, Value.wellTyped_scalar _⟩
  exact (standard.keepsTyping source slot (by simp) _).2 (by rfl)

end Recast
