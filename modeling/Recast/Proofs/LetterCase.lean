import Mathlib.Data.List.Find
import Recast.Path.Evaluate
import Recast.Proofs.Parts

/-!
Lookups without regard to case. They are meant to find more, but a name that is the same up to case
may stand in front of the one that is wanted, and then a lookup goes elsewhere. It cannot where no
container holds two names that differ in case alone (`Value.CaseRegular`): whatever a lookup finds
letter by letter, and whatever it fails on, is the same without regard to case
(`Value.find?_ignoreCase`).
-/

namespace Recast

/-- Texts that are the same up to case are the same. -/
def Text.CaseApart (texts : List String) : Prop :=
  ∀ a ∈ texts, ∀ b ∈ texts, Text.foldEq a b = true → a = b

instance (texts : List String) : Decidable (Text.CaseApart texts) :=
  inferInstanceAs (Decidable (∀ a ∈ texts, ∀ b ∈ texts, _ → a = b))

namespace Value

/-- What a name is compared with: the texts of keys, the names of fields and the texts of items. -/
def names : Value → List String
  | .map _ _ entries => entries.filterMap (·.1.scalarText?)
  | .struct _ fields => fields.map (·.1)
  | .seq _ _ items => items.filterMap scalarText?
  | _ => []

/-- No two names of the container differ in case alone. -/
def CaseRegular (v : Value) : Prop := Text.CaseApart v.names

instance (v : Value) : Decidable v.CaseRegular := inferInstanceAs (Decidable (Text.CaseApart _))

end Value

namespace Path

/-! ## One step -/

theorem mem_of_itemAt? {α : Type} {items : List α} {index : Int} {x : α}
    (h : itemAt? items index = some x) : x ∈ items := by
  unfold itemAt? at h
  split at h
  · cases h
  · exact List.mem_of_getElem? h

/-- A step leads to one of the parts. -/
theorem mem_parts_of_step? {options : PathOptions} {segment : Segment} {v next : Value}
    (h : step? options segment v = some (some next)) : next ∈ v.parts := by
  cases v with
  | map key value entries =>
    rw [step?, Option.some.injEq, mapStep] at h
    split at h
    · obtain ⟨named, at_index, rfl⟩ := Option.map_eq_some_iff.1 h
      have listed := List.mem_mergeSort.1 (mem_of_itemAt? at_index)
      obtain ⟨e, member, name⟩ := List.mem_filterMap.1 listed
      obtain ⟨_, -, rfl⟩ := Option.map_eq_some_iff.1 name
      exact Value.mem_parts_map.2 ⟨e, member, .inr rfl⟩
    · obtain ⟨e, found, rfl⟩ := Option.map_eq_some_iff.1 h
      exact Value.mem_parts_map.2 ⟨e, List.mem_of_find?_eq_some found, .inr rfl⟩
  | struct name fields =>
    rw [step?, Option.some.injEq, structStep] at h
    split at h
    · obtain ⟨field, at_index, rfl⟩ := Option.map_eq_some_iff.1 h
      have member := List.mem_mergeSort.1 (mem_of_itemAt? at_index)
      exact List.mem_map_of_mem (List.mem_reverse.1 member)
    · obtain ⟨field, found, rfl⟩ := Option.map_eq_some_iff.1 h
      exact List.mem_map_of_mem (List.mem_reverse.1 (List.mem_of_find?_eq_some found))
  | seq item length items =>
    rw [step?, Option.some.injEq, sequenceStep] at h
    split at h
    · exact mem_of_itemAt? h
    · exact List.mem_reverse.1 (List.mem_of_find?_eq_some h)
  | nil | scalar | pointer | nilPointer => cases h

/-- Where no two texts differ in case alone, the first one that is wanted letter by letter is the
first one that is wanted up to case. -/
theorem find?_foldEq {α : Type} {text? : α → Option String} {xs : List α} {name : String} {x : α}
    (regular : Text.CaseApart (xs.filterMap text?))
    (found : xs.find? (fun y => (text? y).any (· == name)) = some x) :
    xs.find? (fun y => (text? y).any (Text.foldEq · name)) = some x := by
  have wanted := List.find?_some found
  obtain ⟨_, text, same⟩ := (Option.any_eq_true _ _).1 wanted
  obtain rfl := eq_of_beq same
  have there := List.mem_filterMap.2 ⟨x, List.mem_of_find?_eq_some found, text⟩
  rw [← found]
  refine List.find?_congr fun y member => ?_
  cases other : text? y with
  | none => rfl
  | some a =>
    have among := List.mem_filterMap.2 ⟨y, member, other⟩
    rw [Bool.eq_iff_iff, Option.any_some, Option.any_some, beq_iff_eq]
    constructor
    · exact regular a among _ there
    · rintro rfl
      exact Text.foldEq_refl a

section

variable {exact folded : PathOptions} (letters : exact.ignoreCase = false)
  (case : folded.ignoreCase = true)
include letters case

theorem find?_matchesName (name : String) {α : Type} {text? : α → Option String} {xs : List α}
    {x : α} (regular : Text.CaseApart (xs.filterMap text?))
    (found : xs.find? (fun y => (text? y).any fun text => exact.matchesName text name) = some x) :
    xs.find? (fun y => (text? y).any fun text => folded.matchesName text name) = some x := by
  simp only [PathOptions.matchesName, letters, Bool.false_eq_true, if_false] at found
  simp only [PathOptions.matchesName, case, if_true]
  exact find?_foldEq regular found

/-- **A step that leads somewhere letter by letter leads there without regard to case.** A position
is the same for both. -/
theorem step?_ignoreCase {segment : Segment} {v next : Value} (regular : v.CaseRegular)
    (h : step? exact segment v = some (some next)) :
    step? folded segment v = some (some next) := by
  cases v with
  | map key value entries =>
    rw [step?, Option.some.injEq, mapStep] at h ⊢
    cases position : segment.index? with
    | some index => simpa only [position] using h
    | none =>
      have texts : Text.CaseApart (entries.filterMap fun e => e.1.scalarText?) := regular
      simp only [position, Option.map_eq_some_iff, isNamed] at h ⊢
      obtain ⟨e, found, rfl⟩ := h
      exact ⟨e, find?_matchesName letters case segment.text texts found, rfl⟩
  | struct name fields =>
    rw [step?, Option.some.injEq, structStep] at h ⊢
    cases position : segment.index? with
    | some index => simpa only [position] using h
    | none =>
      have texts : Text.CaseApart (fields.reverse.filterMap fun f => some f.1) := by
        have names : Text.CaseApart (fields.map (·.1)) := regular
        simpa [Text.CaseApart] using names
      have finds := fun x => find?_matchesName letters case segment.text (x := x) texts
      simp only [Option.any_some] at finds
      simp only [position, Option.map_eq_some_iff] at h ⊢
      obtain ⟨field, found, rfl⟩ := h
      exact ⟨field, finds field found, rfl⟩
  | seq item length items =>
    rw [step?, Option.some.injEq, sequenceStep] at h ⊢
    cases position : segment.index? with
    | some index => simpa only [position] using h
    | none =>
      have texts : Text.CaseApart (items.reverse.filterMap Value.scalarText?) := by
        have forward : Text.CaseApart (items.filterMap Value.scalarText?) := regular
        simpa [Text.CaseApart] using forward
      simp only [position] at h ⊢
      exact find?_matchesName letters case segment.text texts h
  | nil | scalar | pointer | nilPointer => cases h

omit letters case in
/-- Whether there is anything to step into does not depend on the options. -/
theorem step?_eq_none_iff {options options' : PathOptions} {segment : Segment} {v : Value} :
    step? options segment v = none ↔ step? options' segment v = none := by
  cases v <;> simp [step?]

/-! ## Walks -/

/-- **A walk that does not end in nothing is the same without regard to case.** -/
theorem walk_ignoreCase {segments : List Segment} {v : Value}
    (regular : v.Everywhere Value.CaseRegular) :
    walk exact segments v = .ok none ∨ walk folded segments v = walk exact segments v := by
  induction segments generalizing v with
  | nil => exact .inr rfl
  | cons segment segments ih =>
    rw [walk, walk]
    cases step : step? exact segment v.elem with
    | none =>
      rw [step?_eq_none_iff.1 step]
      exact .inr rfl
    | some next? =>
      cases next? with
      | none => exact .inl rfl
      | some next =>
        rw [step?_ignoreCase letters case regular.elem.here step]
        exact ih (regular.elem.part (mem_parts_of_step? step))

end

end Path

/-- **Lookups without regard to case only find more.** -/
theorem Value.find?_ignoreCase {v : Value} (regular : v.Everywhere CaseRegular)
    (expression : String) (options : PathOptions) :
    let exact := v.find? expression { options with ignoreCase := false }
    let folded := v.find? expression { options with ignoreCase := true }
    (∀ w, exact = .ok (some w) → folded = .ok (some w)) ∧
      (∀ error, exact = .error error → folded = .error error) ∧
      (folded ≠ exact → exact = .ok none) := by
  intro exact folded
  have walked : exact = .ok none ∨ folded = exact := Path.walk_ignoreCase rfl rfl regular
  refine ⟨fun w finds => ?_, fun error fails => ?_, walked.resolve_right⟩
  · rw [walked.resolve_left (by simp [finds]), finds]
  · rw [walked.resolve_left (by simp [fails]), fails]

/-- A key behind a pointer and the last item with its text, wanted letter by letter and not. -/
theorem Value.find?_ignoreCase_roles :
    let admin : Value := .string "Admin"
    let roles : Value := .seq .any none [.string "User", admin]
    let v : Value := .map (.pointer .string) .any
      [((Value.string "Name").pointerTo, .string "Joe"), ((Value.string "Roles").pointerTo, roles)]
    v.Everywhere CaseRegular ∧ v.find? "Roles.Admin" {} = .ok (some admin) ∧
      v.find? "Roles.Admin" { ignoreCase := true } = .ok (some admin) ∧
      v.find? "Name.First" { ignoreCase := true } = .error ⟨"string", "First"⟩ ∧
      v.find? "roles.admin" {} = .ok none ∧
      v.find? "roles.admin" { ignoreCase := true } = .ok (some admin) := by
  intro admin roles v
  have regular : v.Everywhere CaseRegular := by
    simp only [v, roles, admin, pointerTo, everywhere_map, everywhere_seq, everywhere_pointer,
      everywhere_scalar, List.forall_mem_cons, List.not_mem_nil, false_implies, implies_true,
      and_true]
    decide
  obtain ⟨finds, -, -⟩ := find?_ignoreCase regular "Roles.Admin" {}
  obtain ⟨-, fails, -⟩ := find?_ignoreCase regular "Name.First" {}
  exact ⟨regular, rfl, finds admin rfl, fails _ rfl, rfl, rfl⟩

/-- Of two keys that differ in case alone the first one is in the way. -/
example :
    let v : Value := .map .string .any [(.string "NAME", .nil), (.string "name", .string "Joe")]
    v.find? "name" {} = .ok (some (.string "Joe")) ∧
      v.find? "name" { ignoreCase := true } = .ok (some .nil) :=
  ⟨rfl, rfl⟩

end Recast
