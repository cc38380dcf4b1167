import Recast.Value.Equality
import Std.Data.HashMap

/-!
Looking up and putting entries of a map and fields of a struct. A key is found at the first entry
whose key equals it. With a `KeyIndex`, text keys are found through their first positions, and other
keys by comparison with each entry.
-/

namespace Recast

namespace Value

def isString (s : String) : Value → Bool
  | .scalar (.string t) => t == s
  | _ => false

end Value

namespace Entries

def get? (entries : Entries) (key : Value) : Option Value :=
  (entries.find? (·.1 == key)).map (·.2)

def getString? (entries : Entries) (key : String) : Option Value :=
  (entries.find? (·.1.isString key)).map (·.2)

/-- Replaces the value of a key that is there, and appends one that is not. -/
def insert : Entries → Value → Value → Entries
  | [], key, v => [(key, v)]
  | (k, old) :: entries, key, v =>
    if k == key then (k, v) :: entries else (k, old) :: Entries.insert entries key v

end Entries

namespace Fields

def get? (fields : Fields) (name : String) : Option Value :=
  (fields.find? (·.1 == name)).map (·.2)

/-- Sets the first field of the name, if there is one. -/
def set? : Fields → String → Value → Option Fields
  | [], _, _ => none
  | (n, old) :: fields, name, v =>
    if n == name then some ((n, v) :: fields)
    else (Fields.set? fields name v).map ((n, old) :: ·)

end Fields

structure KeyIndex where
  positions : Std.HashMap String Nat

namespace KeyIndex

def empty : KeyIndex := ⟨∅⟩

/-- Notes a position, unless the key has an earlier one. -/
def record (index : KeyIndex) (key : Value) (position : Nat) : KeyIndex :=
  match key with
  | .scalar (.string s) => ⟨index.positions.insertIfNew s position⟩
  | _ => index

def ofEntries (entries : Entries) : KeyIndex :=
  entries.zipIdx.foldl (fun index entry => index.record entry.1.1 entry.2) empty

def position? (index : KeyIndex) (entries : Entries) (key : Value) : Option Nat :=
  match key with
  | .scalar (.string s) => index.positions[s]?
  | _ => entries.findIdx? (·.1 == key)

end KeyIndex

end Recast
