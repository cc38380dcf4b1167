import Recast.Ty

/-!
Dynamically typed values. Containers and pointers declare the types of what they hold, but nothing
forces their contents to agree. `Value.type` is the type a value shows and `Ty.zero` the value a
type starts from; `Ty.type_zero` says that the two fit together.
-/

namespace Recast

inductive Value where
  /-- No value; also what an untyped slot holds at first. -/
  | nil
  | scalar (s : Scalar)
  | map (key value : Ty) (entries : List (Value × Value))
  | struct (name : String) (fields : List (String × Value))
  | seq (item : Ty) (length : Option Nat) (items : List Value)
  | pointer (pointee : Ty) (target : Value)
  | nilPointer (pointee : Ty)

/-- The entries of a map, in the order in which they were first put. -/
abbrev Entries := List (Value × Value)

/-- The fields of a struct, in the order of declaration. Names may repeat. -/
abbrev Fields := List (String × Value)

mutual

def Ty.zero : Ty → Value
  | .any => .nil
  | .scalar k => .scalar k.zero
  | .map key value => .map key value []
  | .struct name fields => .struct name (zeroFields fields)
  | .seq item none => .seq item none []
  | .seq item (some n) => .seq item (some n) (List.replicate n item.zero)
  | .pointer pointee => .nilPointer pointee

def Ty.zeroFields : List (String × Ty) → Fields
  | [] => []
  | (name, t) :: fields => (name, t.zero) :: zeroFields fields

end

namespace Value

abbrev string (s : String) : Value := .scalar (.string s)

abbrev int (k : IntKind) (n : Int) : Value := .scalar (.int k (k.wrap n))

mutual

/-- A struct shows the types of what its fields hold now. -/
def type : Value → Ty
  | .nil => .any
  | .scalar s => .scalar s.kind
  | .map key value _ => .map key value
  | .struct name fields => .struct name (typeFields fields)
  | .seq item length _ => .seq item length
  | .pointer pointee _ | .nilPointer pointee => .pointer pointee

def typeFields : Fields → List (String × Ty)
  | [] => []
  | (name, v) :: fields => (name, v.type) :: typeFields fields

end

/-- The type's zero value in place of the value. -/
def reset (v : Value) : Value := v.type.zero

/-- A pointer to a value, of the type that the value shows. -/
def pointerTo (v : Value) : Value := .pointer v.type v

/-- What live pointers lead to. A nil pointer is where it ends. -/
def elem : Value → Value
  | .pointer _ target => target.elem
  | v => v

def isNil : Value → Bool
  | .nil => true
  | _ => false

end Value

/-- What kind of thing live pointers lead to. -/
inductive Shape where
  | nil | scalar | map | struct | sequence
  deriving DecidableEq

def Shape.name : Shape → String
  | .nil => "nil"
  | .scalar => "scalar"
  | .map => "map"
  | .struct => "struct"
  | .sequence => "sequence"

namespace Value

def shape : Value → Shape
  | .nil | .nilPointer _ => .nil
  | .scalar _ => .scalar
  | .map .. => .map
  | .struct .. => .struct
  | .seq .. => .sequence
  | .pointer _ target => target.shape

theorem shape_elem (v : Value) : v.elem.shape = v.shape := by
  fun_induction elem v with
  | case1 _ _ ih => simpa [shape] using ih
  | case2 => rfl

/-- Changes what live pointers lead to. -/
def mapElem (f : Value → Value) : Value → Value
  | .pointer pointee target => .pointer pointee (target.mapElem f)
  | v => f v

end Value

mutual

theorem Ty.type_zero : ∀ t : Ty, t.zero.type = t
  | .any | .map .. | .seq _ none | .seq _ (some _) | .pointer _ => by simp [Ty.zero, Value.type]
  | .scalar k => by simp [Ty.zero, Value.type, ScalarKind.kind_zero]
  | .struct _ fields => by simp [Ty.zero, Value.type, Ty.typeFields_zeroFields fields]

theorem Ty.typeFields_zeroFields :
    ∀ fields : List (String × Ty), Value.typeFields (Ty.zeroFields fields) = fields
  | [] => rfl
  | (_, t) :: fields => by
    simp [Ty.zeroFields, Value.typeFields, Ty.type_zero t, Ty.typeFields_zeroFields fields]

end

end Recast
