import Recast.Scalar.Basic

/-!
The types of values. A type is what a slot declares, and what a recipe is matched against.
-/

namespace Recast

inductive Ty where
  /-- The untyped slot. -/
  | any
  | scalar (k : ScalarKind)
  | map (key value : Ty)
  | struct (name : String) (fields : List (String × Ty))
  /-- A slice, or an array if a length is given. -/
  | seq (item : Ty) (length : Option Nat)
  | pointer (pointee : Ty)

namespace Ty

abbrev string : Ty := .scalar .string

abbrev slice (item : Ty) : Ty := .seq item none

mutual

def beq : Ty → Ty → Bool
  | .any, .any => true
  | .scalar k, .scalar l => k == l
  | .map k v, .map k' v' => k.beq k' && v.beq v'
  | .struct n fs, .struct n' fs' => n == n' && beqFields fs fs'
  | .seq t n, .seq t' n' => t.beq t' && n == n'
  | .pointer t, .pointer t' => t.beq t'
  | _, _ => false

def beqFields : List (String × Ty) → List (String × Ty) → Bool
  | [], [] => true
  | (n, t) :: fs, (n', t') :: fs' => n == n' && t.beq t' && beqFields fs fs'
  | _, _ => false

end

mutual

theorem beq_iff : ∀ t u : Ty, t.beq u = true ↔ t = u
  | .any, u => by cases u <;> simp [beq]
  | .scalar _, u => by cases u <;> simp [beq]
  | .map k v, u => by cases u <;> simp [beq, beq_iff k, beq_iff v]
  | .struct _ fs, u => by cases u <;> simp [beq, beqFields_iff fs]
  | .seq t _, u => by cases u <;> simp [beq, beq_iff t]
  | .pointer t, u => by cases u <;> simp [beq, beq_iff t]

theorem beqFields_iff : ∀ fs gs : List (String × Ty), beqFields fs gs = true ↔ fs = gs
  | [], gs => by cases gs <;> simp [beqFields]
  | (n, t) :: fs, gs => by
    rcases gs with _ | ⟨⟨m, u⟩, gs⟩ <;> simp [beqFields, beq_iff t, beqFields_iff fs, and_assoc]

end

instance : DecidableEq Ty := fun t u => decidable_of_iff _ (beq_iff t u)

def isScalar : Ty → Bool
  | .scalar _ => true
  | _ => false

/-- The type as messages write it. A struct is known by its name. -/
def text : Ty → String
  | .any => "any"
  | .scalar k => k.name
  | .map key value => "map[" ++ key.text ++ "]" ++ value.text
  | .struct name _ => "struct " ++ name
  | .seq item none => "[]" ++ item.text
  | .seq item (some n) => "[" ++ toString n ++ "]" ++ item.text
  | .pointer pointee => "*" ++ pointee.text

end Ty

end Recast
