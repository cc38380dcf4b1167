import Recast.Recipe.Basic
import Recast.Value.Entries

/-!
Actions that fill a map. The map is rebuilt from the source alone: each value is converted into the
one that the old map holds under the same key, and the new entries replace the old ones only when
all of them are there.
-/

namespace Recast.Recipe

/-- The entries put so far. -/
structure Rebuilt where
  entries : Entries
  index : KeyIndex

namespace Rebuilt

def empty : Rebuilt := ⟨[], .empty⟩

/-- Replaces the value of a key that is there, and appends one that is not. -/
def put (r : Rebuilt) (key v : Value) : Rebuilt :=
  match r.index.position? r.entries key with
  | some i => { r with entries := r.entries.modify i fun entry => (entry.1, v) }
  | none => ⟨r.entries ++ [(key, v)], r.index.record key r.entries.length⟩

end Rebuilt

/-- Converts and puts each pair. A value starts from what `previous?` knows under its key. -/
def rebuild (nested : Value → Value → Outcome Cause Value) (keyType valueType : Ty)
    (previous? : Value → Option Value) : Rebuilt → Entries → Outcome Cause Rebuilt
  | r, [] => .done r
  | r, (k, v) :: pairs =>
    (nested k keyType.zero).useFor r fun key =>
      (nested v ((previous? key).getD valueType.zero)).useFor r fun value =>
        rebuild nested keyType valueType previous? (r.put key value) pairs

/-- The entries of a map after it has been filled from `pairs`. -/
def fillMap (nested : Value → Value → Outcome Cause Value) (keyType valueType : Ty)
    (old pairs : Entries) : Outcome Cause Entries :=
  let index := KeyIndex.ofEntries old
  let previous? key := (index.position? old key).bind fun i => old[i]?.map (·.2)
  (rebuild nested keyType valueType previous? .empty pairs).useFor old fun r => .done r.entries

/-- Fills the map that live pointers lead to. -/
def fillTarget (scope : Scope) (pairs : Entries) (dst : Value) : Outcome Cause Value :=
  dst.writeElem fun
    | .map keyType valueType old =>
      (fillMap scope.nested keyType valueType old pairs).map (.map keyType valueType)
    | v => .failed (.wrongTarget .map) v

def mapToMap : Action := fun scope src dst =>
  match src.elem with
  | .map _ _ entries => fillTarget scope entries dst
  | v => .failed (.wrongSource "map" v.type) dst

/-- Names become text keys. Of fields with one name the first one counts, so they are taken from the
last to the first. -/
def structToMap : Action := fun scope src dst =>
  match src.elem with
  | .struct _ fields =>
    fillTarget scope (fields.reverse.map fun field => (.string field.1, field.2)) dst
  | v => .failed (.wrongSource "struct" v.type) dst

/-- Nil resets what live pointers lead to. -/
def nilToZero : Action := fun _ _ dst => dst.writeElem fun v => .done v.reset

end Recast.Recipe
