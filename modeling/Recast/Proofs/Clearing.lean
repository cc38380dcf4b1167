import Recast.Conversion.Extract
import Recast.Proofs.Allocation
import Recast.Proofs.Failures

/-!
What nil is converted to. Nil comes from data that holds none, and from a path that leads nowhere.
When merging into what exists, it clears a destination that is untyped, a map or a struct, whatever
pointers lead there: each of them is kept, and allocated if it was nil (`Value.cleared`). Any other
destination is refused, by the type behind all pointers (`Converter.Standard.convert_absent`).
-/

namespace Recast

open Outcome Recipe

/-! ## Cleared destinations -/

/-- The types with a value for nothing: the untyped one, maps and structs. -/
def Ty.takesNil : Ty → Bool
  | .any | .map .. | .struct .. => true
  | _ => false

/-- The zero value of a type, behind pointers that are all allocated. -/
def Ty.allocated : Ty → Value
  | .pointer pointee => .pointer pointee pointee.allocated
  | t => t.zero

namespace Value

/-- What pointers lead to is reset. Live pointers stay and nil pointers are allocated. -/
def cleared : Value → Value
  | .pointer pointee target => .pointer pointee target.cleared
  | .nilPointer pointee => .pointer pointee pointee.allocated
  | v => v.reset

/-- What nil makes of a destination. -/
def fromNil (v : Value) : Except ConversionError Value :=
  if v.content.type.takesNil then .ok v.cleared else .error (.noRecipe .any v.content.type)

theorem cleared_of_isPointer {v : Value} (plain : v.isPointer = false) : v.cleared = v.reset := by
  cases v <;> first | rfl | cases plain

theorem isPointer_zero {t : Ty} (plain : ∀ pointee, t ≠ .pointer pointee) :
    t.zero.isPointer = false := by
  have zero := t.isPointer_zero_elem
  rw [Ty.elem] at zero
  · exact zero
  · exact plain

theorem cleared_zero (t : Ty) : t.zero.cleared = t.allocated := by
  fun_cases Ty.allocated t with
  | case1 pointee => rfl
  | case2 _ plain => rw [cleared_of_isPointer (isPointer_zero plain), reset, Ty.type_zero]

theorem content_zero (t : Ty) : t.zero.content = t.elem.zero := by
  fun_cases Ty.elem t with
  | case1 pointee => rfl
  | case2 _ plain => rw [content_of_isPointer (isPointer_zero plain)]

/-- **What pointers lead to is the zero value of its type**, and no pointer on the way is nil. -/
theorem elem_cleared (v : Value) : v.cleared.elem = v.content.type.zero := by
  have allocated : ∀ t : Ty, t.allocated.elem = t.elem.zero := by
    intro t
    fun_induction Ty.allocated t with
    | case1 pointee ih => exact ih
    | case2 t plain =>
      rw [Ty.elem_zero, Ty.elem]
      exact plain
  fun_induction cleared v with
  | case1 pointee target ih => exact ih
  | case2 pointee => rw [content, Ty.type_zero, elem, allocated]
  | case3 v notLive notNil =>
    rw [content_of_isPointer (isPointer_eq_false notLive notNil), reset, Ty.elem_zero]

theorem fromNil_pointer (pointee : Ty) (target : Value) :
    (Value.pointer pointee target).fromNil = target.fromNil.map (.pointer pointee) := by
  unfold fromNil
  rw [content, cleared, apply_ite (Except.map (Value.pointer pointee))]
  rfl

theorem fromNil_nilPointer (pointee : Ty) :
    (Value.nilPointer pointee).fromNil = pointee.zero.fromNil.map (.pointer pointee) := by
  unfold fromNil
  rw [content, content_zero, cleared, cleared_zero, apply_ite (Except.map (Value.pointer pointee))]
  rfl

/-- A map or a struct behind live pointers is cleared in place. -/
theorem writeElem_reset {v : Value} (found : byShape .nil v.shape = some nilToZero) :
    (v.writeElem fun w => .done w.reset) = (.done v.cleared : Outcome Cause Value) ∧
      v.content.type.takesNil = true := by
  fun_induction cleared v with
  | case1 pointee target ih =>
    obtain ⟨written, takes⟩ := ih found
    exact ⟨by rw [writeElem, written]; rfl, takes⟩
  | case2 pointee => cases found
  | case3 v notLive notNil =>
    cases v with
    | pointer pointee target => exact absurd rfl (notLive pointee target)
    | map | struct => exact ⟨rfl, rfl⟩
    | _ => cases found

end Value

/-! ## Conversions of nil -/

namespace Outcome

variable {ε α β : Type}

theorem result?_map (f : α → β) (o : Outcome ε α) :
    (o.map f).result? = o.result?.map (Except.map f) := by
  cases o <;> rfl

theorem rollback_of_result? {o : Outcome ε α} {e : Except ε α} (h : o.result? = some e)
    (kept : α) : o.rollback kept = ofExcept kept e := by
  cases o <;> cases h <;> rfl

end Outcome

namespace Settings

variable {σ : Settings} (hm : σ.mergeMode = .intoExisting)
include hm

theorem convert_nil_of_shape {dst : Value} {action : Action}
    (found : byShape .nil dst.shape = some action) :
    (σ.convert .nil dst).result? = some dst.fromNil := by
  obtain rfl : action = nilToZero := by
    cases shape : dst.shape <;> simp_all [byShape]
  have notNil : dst ≠ .nil := by
    rintro rfl
    cases found
  have chosen : chosen .nil (σ.start dst) = some nilToZero := by
    rw [σ.start_of_intoExisting hm]
    exact chosen_of_byShape found
  obtain ⟨written, takes⟩ := Value.writeElem_reset found
  have converted := σ.result?_of_chosen notNil chosen
  rw [σ.start_of_intoExisting hm, nilToZero, written, done?, result?_eq_some] at converted
  rw [converted, Value.fromNil, if_pos takes]
  rfl

/-- Where no shape is for nil, a pointer is followed, and anything else is refused. -/
theorem convert_nil_of_not_shape {dst : Value} (notNil : dst ≠ .nil)
    (unshaped : byShape .nil dst.shape = none) :
    σ.convert .nil dst = follow σ.convert .nil dst := by
  have notChosen : chosen .nil dst = none := by
    cases dst <;> exact unshaped
  rw [convert_eq, step, isNil_eq_false notNil, σ.start_of_intoExisting hm, notChosen]
  rfl

/-- **What nil is converted to**, for any number of pointers, live and nil ones. -/
theorem convert_nil_eq (dst : Value) : (σ.convert .nil dst).result? = some dst.fromNil := by
  -- A nil pointer goes on with the zero value of its pointee, which has one pointer less ahead.
  induction way : dst.way using Nat.strong_induction_on generalizing dst with
  | h n ih =>
    subst way
    cases shaped : byShape .nil dst.shape with
    | some action => exact convert_nil_of_shape hm shaped
    | none =>
      by_cases untyped : dst = .nil
      · subst untyped
        rw [convert_eq]
        rfl
      rw [convert_nil_of_not_shape hm untyped shaped]
      cases dst with
      | nil => exact absurd rfl untyped
      | scalar s => rfl
      | seq item length items => rfl
      | map | struct => cases shaped
      | pointer pointee target =>
        have nearer : target.way < (Value.pointer pointee target).way := by
          simp only [Value.way]
          omega
        rw [follow, result?_map, ih _ nearer target rfl, Value.fromNil_pointer, Option.map_some]
        all_goals simp
      | nilPointer pointee =>
        have nearer : pointee.zero.way < (Value.nilPointer pointee).way :=
          Nat.lt_succ_of_le (Ty.way_zero pointee)
        rw [follow, result?_map, ih _ nearer pointee.zero rfl, Value.fromNil_nilPointer,
          Option.map_some]
        all_goals simp

end Settings

/-- What a path does not find, and what it finds to be nil, is extracted as nil. -/
theorem Converter.extract_nil (c : Converter) {options : PathOptions} {data : Value}
    {expression : String}
    (absent : data.find? expression options = .ok none ∨
      data.find? expression options = .ok (some .nil)) (d : Value) :
    c.extract options data expression d = (c.convert .nil d).mapError .conversion := by
  rcases absent with nothing | null
  · simp only [extract, nothing, Option.getD_none]
  · simp only [extract, null, Option.getD_some]

/-- **Nil clears what is untyped, a map or a struct**, when merging into what exists. Live pointers
on the way are kept and nil ones allocated, so that all of them lead to the zero value of the type
that was there. Every other destination is left as it is, and the error names the type behind all
pointers. A path that leads nowhere or to nil is extracted in the same way. -/
theorem Converter.Standard.convert_absent {c : Converter} (h : c.Standard {})
    (merging : c.settings.mergeMode = .intoExisting) (d : Value) :
    (c.convert .nil d =
      if d.content.type.takesNil then .done d.cleared
      else .failed (.noRecipe .any d.content.type) d) ∧
    d.cleared.elem = d.content.type.zero ∧ (∀ pointee, d.content.type ≠ .pointer pointee) ∧
    ∀ options data expression,
      data.find? expression options = .ok none ∨ data.find? expression options = .ok (some .nil) →
        c.extract options data expression d = (c.convert .nil d).mapError .conversion := by
  refine ⟨?_, d.elem_cleared, Value.type_ne_pointer d.isPointer_content,
    fun options data expression absent => c.extract_nil absent d⟩
  have result := Settings.convert_nil_eq (σ := c.settingsOf {}) merging d
  rw [convert, h.convertWith_eq, rollback_of_result? result, Value.fromNil]
  split <;> rfl

/-- A missing name clears a struct behind three pointers, the inner two of them nil, and does not
clear a slice. -/
theorem Converter.Standard.convert_absent_deep :
    let c : Converter := {}
    let row : Ty := .struct "Row" [("Note", .any), ("Port", .scalar (.int .uint16))]
    let d : Value := (Value.nilPointer (.pointer row)).pointerTo
    let data : Value := .map .string .any [(.string "Details", .map .string .any [])]
    c.Standard {} ∧ c.settings.mergeMode = .intoExisting ∧
      data.find? "Details.Middle" {} = .ok none ∧
      c.extract {} data "Details.Middle" d =
        .done (.pointer (.pointer (.pointer row)) (.pointer (.pointer row)
          (.pointer row (.struct "Row" [("Note", .nil), ("Port", .int .uint16 0)])))) ∧
      c.convert .nil (.nilPointer (.slice row)) =
        .failed (.noRecipe .any (.slice row)) (.nilPointer (.slice row)) := by
  intro c row d data
  have standard : c.Standard {} := ⟨rfl, rfl⟩
  have absent : data.find? "Details.Middle" {} = .ok none := rfl
  obtain ⟨clears, -, -, extracts⟩ := standard.convert_absent rfl d
  obtain ⟨refuses, -⟩ := standard.convert_absent rfl (.nilPointer (.slice row))
  refine ⟨standard, rfl, absent, ?_, refuses⟩
  rw [extracts {} data _ (.inl absent), clears]
  rfl

end Recast
