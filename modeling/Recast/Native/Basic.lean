import Recast.Value.Basic

/-!
Native types: types whose elements are ordinary data instead of values. Each has a place among the
types of values, and its elements have an order as keys of a map.
-/

namespace Recast

inductive Native where
  | scalar (k : ScalarKind)
  /-- Any value, as it is. -/
  | value
  | list (item : Native)
  | option (item : Native)
  /-- A map whose entries have no order of their own. -/
  | hashMap (key value : Native)
  /-- A map that lists its entries by key. -/
  | orderedMap (key value : Native)

def ScalarKind.Carrier : ScalarKind → Type
  | .bool => Bool
  | .int k => k.Word
  | .float k => k.Word
  | .string => String

namespace Scalar

def ofCarrier : (k : ScalarKind) → k.Carrier → Scalar
  | .bool, b => .bool b
  | .int k, word => .int k word
  | .float k, word => .float k word
  | .string, s => .string s

def carrier? : (k : ScalarKind) → Scalar → Option k.Carrier
  | .bool, .bool b => some b
  | .int k, .int l word => if h : l = k then some (h ▸ word) else none
  | .float k, .float l word => if h : l = k then some (h ▸ word) else none
  | .string, .string s => some s
  | _, _ => none

end Scalar

namespace ScalarKind

/-- The order of numbers and of texts. Floating-point numbers are no keys and compare equal. -/
def compare : (k : ScalarKind) → k.Carrier → k.Carrier → Ordering
  | .bool, a, b => Ord.compare (α := Bool) a b
  | .int k, a, b => Ord.compare (k.value a) (k.value b)
  | .float _, _, _ => .eq
  | .string, a, b => Ord.compare (α := String) a b

end ScalarKind

namespace Native

/-- The elements of a native type. The entries of a map have distinct keys. -/
def Carrier : Native → Type
  | .scalar k => k.Carrier
  | .value => Value
  | .list t => List t.Carrier
  | .option t => Option t.Carrier
  | .hashMap k v | .orderedMap k v => List (k.Carrier × v.Carrier)

/-- The type that a value of the native type has. -/
def type : Native → Ty
  | .scalar k => .scalar k
  | .value => .any
  | .list t => .slice t.type
  | .option t => .pointer t.type
  | .hashMap k v | .orderedMap k v => .map k.type v.type

def compareLists {α : Type} (compare : α → α → Ordering) : List α → List α → Ordering
  | [], [] => .eq
  | [], _ :: _ => .lt
  | _ :: _, [] => .gt
  | a :: as, b :: bs => (compare a b).then (compareLists compare as bs)

/-- The order of keys: lists and ordered maps from the front, nothing before something. -/
def compare : (t : Native) → t.Carrier → t.Carrier → Ordering
  | .scalar k, a, b => k.compare a b
  | .value, _, _ => .eq
  | .list t, a, b => compareLists t.compare a b
  | .option _, none, none => .eq
  | .option _, none, some _ => .lt
  | .option _, some _, none => .gt
  | .option t, some a, some b => t.compare a b
  | .hashMap k v, a, b | .orderedMap k v, a, b =>
    compareLists (fun x y => (k.compare x.1 y.1).then (v.compare x.2 y.2)) a b

/-- The same element with the entries of every map listed by key. -/
def listed : (t : Native) → t.Carrier → t.Carrier
  | .scalar _, x => x
  | .value, v => v
  | .list t, xs => xs.map t.listed
  | .option t, x => x.map t.listed
  | .hashMap k v, entries | .orderedMap k v, entries =>
    (entries.map fun e => (k.listed e.1, v.listed e.2)).mergeSort fun a b =>
      (k.compare a.1 b.1).isLE

end Native

end Recast
