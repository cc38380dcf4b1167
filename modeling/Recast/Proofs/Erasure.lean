import Recast.Path.Evaluate
import Recast.Proofs.Choice
import Recast.Proofs.Parts

/-!
Values without live pointers. `Value.erase` replaces each of them by what it leads to, at every
depth and in keys as well. Paths follow pointers without a segment of their own: in front of each
step, for the keys that have a position, and for the texts that names are compared with. None of
these places tells an erased value from the value itself (`Path.step?_erase`), so that a path leads
to the same part of both (`Value.find?_erase`). Nil pointers stay, and are reported by their type.
-/

namespace Recast

namespace Value

mutual

/-- The value in which each live pointer is replaced by what it leads to. -/
def erase : Value → Value
  | .nil => .nil
  | .scalar s => .scalar s
  | .map key value entries => .map key value (eraseEntries entries)
  | .struct name fields => .struct name (eraseFields fields)
  | .seq item length items => .seq item length (eraseItems items)
  | .pointer _ target => target.erase
  | .nilPointer pointee => .nilPointer pointee

def eraseEntries : Entries → Entries
  | [] => []
  | (k, v) :: entries => (k.erase, v.erase) :: eraseEntries entries

def eraseFields : Fields → Fields
  | [] => []
  | (name, v) :: fields => (name, v.erase) :: eraseFields fields

def eraseItems : List Value → List Value
  | [] => []
  | v :: items => v.erase :: eraseItems items

end

theorem eraseEntries_eq_map (entries : Entries) :
    eraseEntries entries = entries.map fun e => (e.1.erase, e.2.erase) := by
  induction entries with
  | nil => rfl
  | cons e entries ih => rw [eraseEntries, ih, List.map_cons]

theorem eraseFields_eq_map (fields : Fields) :
    eraseFields fields = fields.map fun f => (f.1, f.2.erase) := by
  induction fields with
  | nil => rfl
  | cons f fields ih => rw [eraseFields, ih, List.map_cons]

theorem eraseItems_eq_map (items : List Value) : eraseItems items = items.map erase := by
  induction items with
  | nil => rfl
  | cons v items ih => rw [eraseItems, ih, List.map_cons]

/-! ## What pointers lead to -/

theorem erase_elem (v : Value) : v.elem.erase = v.erase := by
  fun_induction elem v with
  | case1 pointee target ih => rw [ih, erase]
  | case2 => rfl

/-- No live pointer is left to follow. -/
theorem elem_erase (v : Value) : v.erase.elem = v.erase := by
  induction v using partsInduction with
  | step v ih =>
    cases v with
    | pointer pointee target =>
      rw [erase]
      exact ih target (List.mem_singleton_self target)
    | _ => rfl

theorem scalarText?_erase (v : Value) : v.erase.scalarText? = v.scalarText? := by
  induction v using partsInduction with
  | step v ih =>
    cases v with
    | pointer pointee target =>
      rw [erase]
      exact ih target (List.mem_singleton_self target)
    | _ => rfl

theorem elemString?_erase (v : Value) : v.erase.elemString? = v.elemString? := by
  induction v using partsInduction with
  | step v ih =>
    cases v with
    | pointer pointee target =>
      rw [erase]
      exact ih target (List.mem_singleton_self target)
    | _ => rfl

end Value

open Value

namespace Path

/-! ## Steps into erased values -/

theorem itemAt?_map {α β : Type} (f : α → β) (items : List α) (index : Int) :
    itemAt? (items.map f) index = (itemAt? items index).map f := by
  unfold itemAt?
  split
  · rfl
  · exact List.getElem?_map

/-- Values have no part in the order of their names. -/
theorem sortByName_map (f : Value → Value) (named : List (String × Value)) :
    sortByName (named.map fun n => (n.1, f n.2)) =
      (sortByName named).map fun n => (n.1, f n.2) := by
  rw [sortByName, sortByName, List.map_mergeSort]
  exact fun _ _ _ _ => rfl

theorem namedEntries_erase (entries : Entries) :
    namedEntries (eraseEntries entries) =
      (namedEntries entries).map fun n => (n.1, n.2.erase) := by
  rw [eraseEntries_eq_map, namedEntries, List.filterMap_map, namedEntries, List.map_filterMap]
  refine List.filterMap_congr fun e _ => ?_
  simp [elemString?_erase, Function.comp_def]

theorem isNamed_erase (options : PathOptions) (name : String) (v : Value) :
    isNamed options name v.erase = isNamed options name v := by
  rw [isNamed, scalarText?_erase, isNamed]

theorem mapStep_erase (options : PathOptions) (entries : Entries) (segment : Segment) :
    mapStep options (eraseEntries entries) segment =
      (mapStep options entries segment).map erase := by
  unfold mapStep
  cases segment.index? with
  | some index =>
    simp [namedEntries_erase, sortByName_map, itemAt?_map, Function.comp_def]
  | none =>
    simp [eraseEntries_eq_map, List.find?_map, isNamed_erase, Function.comp_def]

theorem structStep_erase (options : PathOptions) (fields : Fields) (segment : Segment) :
    structStep options (eraseFields fields) segment =
      (structStep options fields segment).map erase := by
  unfold structStep
  rw [eraseFields_eq_map, ← List.map_reverse]
  cases segment.index? with
  | some index => simp only [sortByName_map, itemAt?_map, Option.map_map, Function.comp_def]
  | none => simp only [List.find?_map, Option.map_map, Function.comp_def]

theorem sequenceStep_erase (options : PathOptions) (items : List Value) (segment : Segment) :
    sequenceStep options (eraseItems items) segment =
      (sequenceStep options items segment).map erase := by
  unfold sequenceStep
  rw [eraseItems_eq_map]
  cases segment.index? with
  | some index => exact itemAt?_map erase items index
  | none =>
    have named : isNamed options segment.text ∘ erase = isNamed options segment.text :=
      funext (isNamed_erase options segment.text)
    rw [← List.map_reverse, List.find?_map, named]

/-- **A step into an erased value leads to what the step into the value leads to**, erased. -/
theorem step?_erase (options : PathOptions) (segment : Segment) (v : Value) :
    step? options segment v.erase.elem =
      (step? options segment v.elem).map (Option.map erase) := by
  rw [elem_erase, ← erase_elem]
  cases elem : v.elem with
  | map key value entries => exact congrArg some (mapStep_erase options entries segment)
  | struct name fields => exact congrArg some (structStep_erase options fields segment)
  | seq item length items => exact congrArg some (sequenceStep_erase options items segment)
  | pointer pointee target => exact absurd elem (elem_ne_pointer v pointee target)
  | nil | scalar | nilPointer => rfl

/-- What has no parts is not changed where pointers lead to it. -/
theorem elem_erase_of_step?_eq_none {options : PathOptions} {segment : Segment} {v : Value}
    (h : step? options segment v.elem = none) : v.erase.elem = v.elem := by
  rw [elem_erase, ← erase_elem]
  cases elem : v.elem with
  | pointer pointee target => exact absurd elem (elem_ne_pointer v pointee target)
  | nil | scalar | nilPointer => rfl
  | map | struct | seq => simp [elem, step?] at h

/-- **A walk through an erased value** ends as the walk through the value does. -/
theorem walk_erase (options : PathOptions) (segments : List Segment) (v : Value) :
    walk options segments v.erase = (walk options segments v).map (Option.map erase) := by
  induction segments generalizing v with
  | nil => rfl
  | cons segment segments ih =>
    rw [walk, walk, step?_erase]
    cases step : step? options segment v.elem with
    | none =>
      rw [elem_erase_of_step?_eq_none step]
      rfl
    | some next? =>
      cases next? with
      | none => rfl
      | some next => exact ih next

end Path

/-- **Live pointers are invisible to paths.** -/
theorem Value.find?_erase (v : Value) (expression : String) (options : PathOptions) :
    (∀ w', v.erase.find? expression options = .ok (some w') ↔
      ∃ w, v.find? expression options = .ok (some w) ∧ w.erase = w') ∧
    (v.erase.find? expression options = .ok none ↔ v.find? expression options = .ok none) ∧
    ∀ error, v.erase.find? expression options = .error error ↔
      v.find? expression options = .error error := by
  have erased : v.erase.find? expression options =
      (v.find? expression options).map (Option.map Value.erase) :=
    Path.walk_erase options (Path.parse expression).segments v
  rw [erased]
  cases v.find? expression options with
  | error error => simp [Except.map]
  | ok found? => cases found? <;> simp [Except.map]

/-- A key behind a pointer, and a pointer to a nil pointer. -/
example :
    let v : Value := .map (.pointer .string) .any
      [((Value.string "limit").pointerTo, (Value.nilPointer (.scalar (.int .int))).pointerTo)]
    v.erase.find? "limit" = .ok (some (.nilPointer (.scalar (.int .int)))) ∧
      v.find? "limit.max" = .error ⟨"nil *int", "max"⟩ ∧
      v.erase.find? "limit.max" = .error ⟨"nil *int", "max"⟩ :=
  ⟨rfl, rfl, rfl⟩

end Recast
