import Recast.Recipe.Basic
import Recast.Text.Lowercase

/-!
Actions that fill a struct. A value goes into the first field whose name matches up to case, and
fields without a value are left alone.
-/

namespace Recast.Recipe

/-- Converts a value into the first field that matches a name. -/
def assignField (nested : Value → Value → Outcome Cause Value) (skipUnknown : Bool)
    (struct name : String) (v : Value) : Fields → Outcome Cause Fields
  | [] => if skipUnknown then .done [] else .failed (.conversion (.unknownField name struct)) []
  | (field, slot) :: fields =>
    if Text.foldEq field name then (nested v slot).map fun slot => (field, slot) :: fields
    else (assignField nested skipUnknown struct name v fields).map ((field, slot) :: ·)

/-- Runs a step on the fields of the struct that live pointers lead to. -/
def writeFields (write : String → Fields → Outcome Cause Fields) (dst : Value) :
    Outcome Cause Value :=
  dst.writeElem fun
    | .struct name fields => (write name fields).map (.struct name)
    | v => .failed (.wrongTarget .struct) v

/-- The text that a key converts to. -/
def nameOf : Value → String
  | .scalar (.string s) => s
  | _ => ""

/-- Converts a key to a name, then its value into the field of that name. -/
def assignEntry (scope : Scope) (struct : String) (fields : Fields) (entry : Value × Value) :
    Outcome Cause Fields :=
  (scope.nested entry.1 (.string "")).useFor fields fun name =>
    assignField scope.nested scope.settings.skipUnknownFields struct (nameOf name) entry.2 fields

def mapToStruct : Action := fun scope src dst =>
  match src.elem with
  | .map _ _ entries =>
    writeFields (fun struct fields => .foldSteps (assignEntry scope struct) fields entries) dst
  | v => .failed (.wrongSource "map" v.type) dst

def structToStruct : Action := fun scope src dst =>
  match src.elem with
  | .struct _ source =>
    let step struct fields (field : String × Value) :=
      assignField scope.nested scope.settings.skipUnknownFields struct field.1 field.2 fields
    writeFields (fun struct fields => .foldSteps (step struct) fields source) dst
  | v => .failed (.wrongSource "struct" v.type) dst

end Recast.Recipe
