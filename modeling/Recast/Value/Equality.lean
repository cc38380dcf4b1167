import Recast.Value.Basic

/-!
Equality of values: the same declared types and the same contents, in the same order. Scalars are
compared by `Scalar.same`, so a value that holds NaN differs from itself.
-/

namespace Recast

namespace Value

mutual

def same : Value → Value → Bool
  | .nil, .nil => true
  | .scalar a, .scalar b => a.same b
  | .map k v a, .map k' v' b => k == k' && v == v' && sameEntries a b
  | .struct n a, .struct n' b => n == n' && sameFields a b
  | .seq t n a, .seq t' n' b => t == t' && n == n' && sameItems a b
  | .pointer t a, .pointer t' b => t == t' && a.same b
  | .nilPointer t, .nilPointer t' => t == t'
  | _, _ => false

def sameEntries : Entries → Entries → Bool
  | [], [] => true
  | (k, v) :: a, (k', v') :: b => k.same k' && v.same v' && sameEntries a b
  | _, _ => false

def sameFields : Fields → Fields → Bool
  | [], [] => true
  | (n, v) :: a, (n', v') :: b => n == n' && v.same v' && sameFields a b
  | _, _ => false

def sameItems : List Value → List Value → Bool
  | [], [] => true
  | v :: a, v' :: b => v.same v' && sameItems a b
  | _, _ => false

end

instance : BEq Value := ⟨same⟩

end Value

end Recast
