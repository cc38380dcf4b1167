import Recast.Proofs.Conformance
import Recast.Proofs.Sameness

/-!
Zero values, node by node. An address says which way to go down from a value, or from a type through
what the type lays out: the fields of a struct and the items of an array. `Ty.node?_zero` says that
a zero value has the same nodes as the layout of its type, each of them a zero value again. So it is
of the type that it was allocated from throughout, and a reset, which reads the type off the value,
has nothing to change the second time.
-/

namespace Recast

/-- The number of a part at each level, from the top down. -/
abbrev Address := List Nat

/-- The type that is laid out for a part: for each field of a struct and each item of an array. What
maps, slices and pointers come to hold is not laid out. -/
def Ty.slot? : Ty → Nat → Option Ty
  | .struct _ fields, i => fields[i]?.map (·.2)
  | .seq item (some n), i => if i < n then some item else none
  | _, _ => none

def Ty.node? : Ty → Address → Option Ty
  | t, [] => some t
  | t, i :: rest => (t.slot? i).bind fun u => u.node? rest

/-- The way down a value goes through all its parts, so every node has an address. -/
def Value.node? : Value → Address → Option Value
  | v, [] => some v
  | v, i :: rest => v.parts[i]?.bind fun c => c.node? rest

/-! ## Nodes of zero values -/

theorem Ty.getElem?_parts_zero (t : Ty) (i : Nat) :
    t.zero.parts[i]? = (t.slot? i).map Ty.zero := by
  cases t with
  | any | scalar | map | pointer => simp [Ty.zero, Value.parts, slot?]
  | struct name fields =>
    simp only [Ty.zero, Ty.zeroFields_eq_map, Value.parts, slot?, List.getElem?_map,
      Option.map_map]
    rfl
  | seq item length =>
    cases length with
    | none => simp [Ty.zero, Value.parts, slot?]
    | some n =>
      simp only [Ty.zero, Value.parts, slot?, List.getElem?_replicate]
      split <;> rfl

/-- The nodes of a zero value are the zero values of the nodes that its type lays out. -/
theorem Ty.node?_zero (t : Ty) (address : Address) :
    t.zero.node? address = (t.node? address).map Ty.zero := by
  induction address generalizing t with
  | nil => rfl
  | cons i rest ih =>
    simp only [Value.node?, Ty.node?, Ty.getElem?_parts_zero]
    cases t.slot? i with
    | none => rfl
    | some u => exact ih u

/-- The second of two fields of one name holds an array of nil pointers. -/
example :
    let row : Ty := .struct "Row" [("id", .string), ("id", .seq (.pointer .string) (some 2))]
    row.zero.node? [1, 1] = some (.nilPointer .string) ∧ row.zero.node? [1, 2] = none :=
  ⟨rfl, rfl⟩

theorem ScalarKind.isNaN_zero (k : ScalarKind) : k.zero.isNaN = false := by
  cases k with
  | float k => cases k <;> decide
  | _ => rfl

theorem Ty.isNaN_zero (t : Ty) : t.zero.isNaN = false := by
  cases t with
  | scalar k => exact k.isNaN_zero
  | seq item length => cases length <;> rfl
  | _ => rfl

theorem Ty.beq_zero_self (t : Ty) : (t.zero == t.zero) = true :=
  Value.same_self (Value.Everywhere.of_zero Ty.isNaN_zero t)

/-! ## Resets -/

namespace Value

theorem type_reset (v : Value) : v.reset.type = v.type := Ty.type_zero v.type

/-- All that a reset keeps of a value is the type. -/
theorem reset_eq_reset_iff {v w : Value} : v.reset = w.reset ↔ v.type = w.type := by
  constructor
  · intro same
    rw [← v.type_reset, same, w.type_reset]
  · exact congrArg Ty.zero

theorem reset_reset (v : Value) : v.reset.reset = v.reset :=
  reset_eq_reset_iff.2 v.type_reset

end Value

/-- **Zero values have the type that they were allocated from.** A zero value shows its type and
conforms to it, and so does every node in it: a node is wherever the type lays one out and nowhere
else, of the type that is laid out there. Hence a reset keeps the type that a value shows and
nothing else of it, and a second reset changes nothing, in the comparison of values too. -/
theorem Ty.zero_typed :
    (∀ t : Ty, t.zero.type = t ∧ t.zero.Conforms t ∧
      ∀ address : Address, Option.Rel (fun w u => w.type = u ∧ w.Conforms u)
        (t.zero.node? address) (t.node? address)) ∧
    (∀ v : Value, v.reset.type = v.type ∧ v.reset.reset = v.reset ∧
      (v.reset.reset == v.reset) = true ∧ ∀ w : Value, v.reset = w.reset ↔ v.type = w.type) := by
  constructor
  · intro t
    refine ⟨t.type_zero, Value.conforms_zero t, fun address => ?_⟩
    rw [Ty.node?_zero]
    cases t.node? address with
    | none => exact .none
    | some u => exact .some ⟨u.type_zero, Value.conforms_zero u⟩
  · intro v
    refine ⟨v.type_reset, v.reset_reset, ?_, fun w => Value.reset_eq_reset_iff⟩
    rw [v.reset_reset]
    exact Ty.beq_zero_self v.type

end Recast
