import Recast.Conversion.Error
import Recast.Native.Basic
import Recast.Value.Entries

/-!
Elements of native types as values. `Native.toValue` turns an element into a value of the type, and
`Native.ofValue` reads one back from a value, if that has the parts that the type asks for.
-/

namespace Recast.Native

/-- Puts an entry in its place by key, over an earlier one of the same key. -/
def insertByKey {α β : Type} (compare : α → α → Ordering) (key : α) (v : β) :
    List (α × β) → List (α × β)
  | [] => [(key, v)]
  | (k, old) :: entries =>
    match compare key k with
    | .lt => (key, v) :: (k, old) :: entries
    | .eq => (k, v) :: entries
    | .gt => (k, old) :: insertByKey compare key v entries

/-- Puts an entry over an earlier one of the same key, or at the end. -/
def insertAtEnd {α β : Type} (compare : α → α → Ordering) (key : α) (v : β) :
    List (α × β) → List (α × β)
  | [] => [(key, v)]
  | (k, old) :: entries =>
    if compare key k == .eq then (k, v) :: entries
    else (k, old) :: insertAtEnd compare key v entries

def toValue : (t : Native) → t.Carrier → Value
  | .scalar k, x => .scalar (.ofCarrier k x)
  | .value, v => v
  | .list t, xs => .seq t.type none (xs.map t.toValue)
  | .option t, none => .nilPointer t.type
  | .option t, some x => .pointer t.type (t.toValue x)
  | .hashMap k v, entries | .orderedMap k v, entries =>
    .map k.type v.type <|
      entries.foldl (fun put e => Entries.insert put (k.toValue e.1) (v.toValue e.2)) []

/-- Reads the entries of a map in order. Of entries with one key the last one stays. -/
def readEntries {α β : Type} (key : Value → Except ConversionError α)
    (value : Value → Except ConversionError β) (insert : α → β → List (α × β) → List (α × β)) :
    List (α × β) → Entries → Except ConversionError (List (α × β))
  | before, [] => .ok before
  | before, (k, v) :: entries => do
    let k ← key k
    let v ← value v
    readEntries key value insert (insert k v before) entries

def ofValue : (t : Native) → Value → Except ConversionError t.Carrier
  | .scalar k, v =>
    match v with
    | .scalar s =>
      match s.carrier? k with
      | some x => .ok x
      | none => .error (.unexpected (.scalar k) v.type)
    | _ => .error (.unexpected (.scalar k) v.type)
  | .value, v => .ok v
  | .list t, v =>
    match v with
    | .seq _ _ items => items.mapM t.ofValue
    | _ => .error (.unexpected (Native.list t).type v.type)
  | .option t, v =>
    match v with
    | .pointer _ target => (t.ofValue target).map some
    | .nilPointer _ => .ok none
    | _ => .error (.unexpected (Native.option t).type v.type)
  | .hashMap k w, v =>
    match v with
    | .map _ _ entries => readEntries k.ofValue w.ofValue (insertAtEnd k.compare) [] entries
    | _ => .error (.unexpected (Native.hashMap k w).type v.type)
  | .orderedMap k w, v =>
    match v with
    | .map _ _ entries => readEntries k.ofValue w.ofValue (insertByKey k.compare) [] entries
    | _ => .error (.unexpected (Native.orderedMap k w).type v.type)

theorem ofValue_scalar_eq (k : ScalarKind) (s : Scalar) :
    (scalar k).ofValue (.scalar s) =
      match s.carrier? k with
      | some x => .ok x
      | none => .error (.unexpected (.scalar k) (Value.scalar s).type) := rfl

end Recast.Native
