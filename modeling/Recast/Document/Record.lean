import Recast.Document.Raw
import Recast.Path.Options
import Recast.Recipe.Basic

/-!
Settings read from JSON. A record is an object, or an array with the fields in order. What is
missing keeps its default, and members of other names are skipped whatever they hold.
-/

namespace Recast

namespace RawDocument

/-- What a record gives for each named field. Every key must be a text, a field may be given once,
and an array must not run past the fields. -/
def record? (names : List String) : RawDocument → Option (List (Option RawDocument))
  | .object members => do
    let members ← members.mapM fun member => (string? member.1).map (·, member.2)
    names.mapM fun name =>
      match members.filter (·.1 == name) with
      | [] => some none
      | [(_, v)] => some (some v)
      | _ => none
  | .array items =>
    if names.length < items.length then none
    else some (items.map some ++ List.replicate (names.length - items.length) none)
  | _ => none

/-- A field that is there must be of the right form. -/
def field? {α : Type} (read : RawDocument → Option α) (default : α) : Option RawDocument → Option α
  | none => some default
  | some document => read document

def bool? : RawDocument → Option Bool
  | .bool b => some b
  | _ => none

end RawDocument

def MergeMode.ofName? : String → Option MergeMode
  | "into_existing" => some .intoExisting
  | "replace" => some .replace
  | _ => none

/-- A mode is its name, or an object with the name as its only key and null as its value. -/
def MergeMode.ofRaw? : RawDocument → Option MergeMode
  | .string units => (RawDocument.string? units).bind ofName?
  | .object [(key, .null)] => (RawDocument.string? key).bind ofName?
  | _ => none

def PathOptions.parse? (text : String) : Option PathOptions := do
  let document ← RawDocument.parse? text
  match ← document.record? ["ignore_case", "ignore_not_found", "ignore_error"] with
  | [ignoreCase, ignoreNotFound, ignoreError] =>
    let flag := RawDocument.field? RawDocument.bool? false
    some ⟨← flag ignoreCase, ← flag ignoreNotFound, ← flag ignoreError⟩
  | _ => none

def Settings.parse? (text : String) : Option Settings := do
  let document ← RawDocument.parse? text
  match ← document.record? ["skip_unknown_fields", "merge_mode"] with
  | [skip, mode] =>
    some ⟨← RawDocument.field? RawDocument.bool? false skip,
      ← RawDocument.field? MergeMode.ofRaw? .intoExisting mode⟩
  | _ => none

end Recast
