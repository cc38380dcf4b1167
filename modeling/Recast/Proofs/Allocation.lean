import Recast.Proofs.Identity

/-!
Pointers that are allocated. A conversion into a nil pointer goes on with the zero value of the
pointee, and one into a pointer that holds that zero value goes on in place. The two differ in one
case only: the source leads to a nil pointer and the pointee is a map or a struct. What is there
takes the nil for a reset, and what is allocated is filled from the value that the nil pointer
stands for.
-/

namespace Recast

open Outcome Recipe

/-- The values of the type are what nil resets. -/
def Ty.isKeyed : Ty → Bool
  | .map .. | .struct .. => true
  | _ => false

theorem Ty.byShape_zero (t : Ty) :
    byShape .nil t.zero.shape = if t.isKeyed then some nilToZero else none := by
  rcases t with _ | _ | _ | _ | ⟨_, _ | _⟩ | _ <;> rfl

/-- What a source gives once all pointers are followed. A nil pointer gives a zero value. -/
def Value.content : Value → Value
  | .pointer _ target => target.content
  | .nilPointer pointee => pointee.elem.zero
  | v => v

theorem Ty.isPointer_zero_elem (t : Ty) : t.elem.zero.isPointer = false := by
  cases elem : t.elem with
  | pointer pointee => exact absurd elem (t.elem_ne_pointer pointee)
  | seq item length => cases length <;> rfl
  | _ => rfl

namespace Value

theorem isPointer_content (v : Value) : v.content.isPointer = false := by
  fun_induction content v with
  | case1 _ _ ih => exact ih
  | case2 pointee => exact pointee.isPointer_zero_elem
  | case3 v notLive notNil => exact isPointer_eq_false notLive notNil

theorem elem_content (v : Value) : v.content.elem = v.content := by
  apply elem_eq_self
  intro pointee target live
  have plain := v.isPointer_content
  rw [live] at plain
  cases plain

theorem content_elem (v : Value) : v.elem.content = v.content := by
  fun_induction elem v with
  | case1 _ _ ih => simpa [content] using ih
  | case2 => rfl

theorem content_of_isPointer {v : Value} (h : v.isPointer = false) : v.content = v := by
  cases v <;> first | rfl | cases h

/-- Live pointers lead to a nil pointer or to no pointer. -/
theorem elem_cases (v : Value) : (∃ p, v.elem = .nilPointer p) ∨ v.elem.isPointer = false := by
  by_cases nil : ∃ p, v.elem = .nilPointer p
  · exact Or.inl nil
  · right
    apply isPointer_eq_false (elem_ne_pointer v)
    intro p stands
    exact nil ⟨p, stands⟩

end Value

namespace Settings

variable (σ : Settings)

theorem result?_nilPointer_elem {p : Ty} {dst : Value} (h : dst ≠ .nil)
    (notShaped : byShape .nil (σ.start dst).shape = none) :
    σ.result? (.nilPointer p) dst = σ.result? p.elem.zero dst := by
  fun_induction Ty.elem p with
  | case1 q ih => rw [σ.result?_nilPointer_left h notShaped, Ty.zero, ih]
  | case2 => exact σ.result?_nilPointer_left h notShaped

/-- A destination that nil does not reset is given the content of the source. -/
theorem result?_content (src : Value) {dst : Value} (h : dst ≠ .nil)
    (kept : src.elem.isPointer = false ∨ byShape .nil (σ.start dst).shape = none) :
    σ.result? src dst = σ.result? src.content dst := by
  rw [← σ.result?_elem src h, ← Value.content_elem]
  rcases src.elem_cases with ⟨p, stands⟩ | plain
  · rw [stands] at kept ⊢
    have notShaped := kept.resolve_left (by simp [Value.isPointer])
    exact σ.result?_nilPointer_elem h notShaped
  · rw [Value.content_of_isPointer plain]

/-- A nil pointer is allocated around what the content of the source gives. -/
theorem result?_unallocated (src : Value) (t : Ty) :
    σ.result? src (.nilPointer t) = (σ.result? src.content t.zero).map (.pointer t) := by
  have notNil : Value.nilPointer t ≠ .nil := by simp
  have notShaped : byShape .nil (σ.start (.nilPointer t)).shape = none := by
    rw [start_nilPointer]
    rfl
  have plain : src.content.elem.isPointer = false := by
    rw [src.elem_content]
    exact src.isPointer_content
  rw [σ.result?_content src notNil (Or.inr notShaped), σ.result?_nilPointer_right t plain,
    src.elem_content]

variable (hm : σ.mergeMode = .intoExisting)
include hm

/-- So is a pointer to a zero value, unless nil resets that. -/
theorem result?_allocated (src : Value) {t : Ty}
    (kept : src.elem.isPointer = false ∨ t.isKeyed = false) :
    σ.result? src (.pointer t t.zero) = (σ.result? src.content t.zero).map (.pointer t) := by
  have notNil : Value.pointer t t.zero ≠ .nil := by simp
  have notShaped : t.isKeyed = false →
      byShape .nil (σ.start (.pointer t t.zero)).shape = none := by
    intro notKeyed
    rw [σ.start_of_intoExisting hm, Value.shape, t.byShape_zero, notKeyed]
    rfl
  rw [σ.result?_content src notNil (kept.imp_right notShaped)]
  by_cases untyped : t = .any
  · subst untyped
    rw [Ty.zero, σ.result?_pointer_nil hm .any src.isPointer_content, σ.result?_nil]
    rfl
  · exact σ.result?_pointer_right hm t src.content (Ty.zero_ne_nil untyped)

/-- Nil resets what is there, and a zero value is what it was before. -/
theorem result?_reset_target {src : Value} {p t : Ty} (stands : src.elem = .nilPointer p)
    (keyed : t.isKeyed = true) :
    σ.result? src (.pointer t t.zero) = some (.pointer t t.zero) := by
  have notNil : Value.pointer t t.zero ≠ .nil := by simp
  have found : chosen (.nilPointer p) (σ.start (.pointer t t.zero)) = some nilToZero := by
    rw [σ.start_of_intoExisting hm, chosen_nilPointer_left, Value.shape, t.byShape_zero, keyed]
    rfl
  rw [← σ.result?_elem src notNil, stands, σ.result?_of_chosen notNil found,
    σ.start_of_intoExisting hm]
  have same : t.zero.reset = t.zero := by rw [Value.reset, Ty.type_zero]
  cases t with
  | map key value => rfl
  | struct name fields =>
    rw [Ty.zero] at same ⊢
    simp only [nilToZero, Value.writeElem, same, Outcome.map, done?]
  | _ => cases keyed

end Settings

namespace Converter.Standard

variable {c : Converter} {options : CallOptions}

/-- **A nil destination is converted into as one that was allocated**, when merging into what
exists, but for one case: the source leads to a nil pointer and the pointee is a map or a struct.
There the allocated destination stays as it is, so that the two agree exactly if the content of the
source gives nothing but the zero value again. -/
theorem convert_allocated (h : c.Standard options)
    (hm : (c.settingsOf options).mergeMode = .intoExisting) (src : Value) (t : Ty) :
    (∀ dst', c.convertWith options src (.nilPointer t) = .done dst' ↔
      ∃ slot, c.convertWith options src.content t.zero = .done slot ∧ dst' = .pointer t slot) ∧
    (∀ p, src.elem = .nilPointer p → t.isKeyed = true →
      c.convertWith options src (.pointer t t.zero) = .done (.pointer t t.zero)) ∧
    ((∀ dst', c.convertWith options src (.nilPointer t) = .done dst' ↔
        c.convertWith options src (.pointer t t.zero) = .done dst') ↔
      ∀ p, src.elem = .nilPointer p → t.isKeyed = true →
        c.convertWith options src.content t.zero = .done t.zero) := by
  have unallocated : ∀ dst', c.convertWith options src (.nilPointer t) = .done dst' ↔
      ∃ slot, c.convertWith options src.content t.zero = .done slot ∧ dst' = .pointer t slot := by
    intro dst'
    simp only [h.result?_eq_some]
    rw [Settings.result?_unallocated, Option.map_eq_some_iff]
    simp only [eq_comm]
  have untouched : ∀ p, src.elem = .nilPointer p → t.isKeyed = true →
      c.convertWith options src (.pointer t t.zero) = .done (.pointer t t.zero) := by
    intro p stands keyed
    rw [h.result?_eq_some]
    exact Settings.result?_reset_target _ hm stands keyed
  have alike (kept : src.elem.isPointer = false ∨ t.isKeyed = false) (dst' : Value) :
      c.convertWith options src (.nilPointer t) = .done dst' ↔
        c.convertWith options src (.pointer t t.zero) = .done dst' := by
    rw [h.result?_eq_some, h.result?_eq_some, Settings.result?_unallocated,
      Settings.result?_allocated _ hm src kept]
  refine ⟨unallocated, untouched, ?_⟩
  constructor
  · intro agree p stands keyed
    obtain ⟨slot, done, same⟩ := (unallocated _).1 ((agree _).2 (untouched p stands keyed))
    cases same
    exact done
  · intro zero dst'
    rcases src.elem_cases with ⟨p, stands⟩ | plain
    · cases keyed : t.isKeyed with
      | false => exact alike (Or.inr keyed) dst'
      | true =>
        rw [unallocated, untouched p stands keyed, zero p stands keyed]
        simp [eq_comm]
    · exact alike (Or.inl plain) dst'

end Converter.Standard

/-- Through pointers, a text is converted into a number behind a pointer that is allocated. -/
theorem Converter.Standard.convert_allocated_number :
    let number : Ty := .pointer (.scalar (.int .int))
    let src : Value := (Value.string "5").pointerTo
    ∀ dst', ({} : Converter).convertWith {} src (.nilPointer number) = .done dst' ↔
      ({} : Converter).convertWith {} src (.pointer number number.zero) = .done dst' := by
  intro number src
  have standard : ({} : Converter).Standard {} := ⟨rfl, rfl⟩
  have agree := (standard.convert_allocated rfl src number).2.2
  apply agree.2
  intro p stands
  cases stands

/-- A nil pointer to a number resets a map that is there, and cannot be converted into one that is
allocated for it. -/
theorem Converter.Standard.convert_unallocated_map :
    let ports : Ty := .map .string (.scalar (.int .int))
    let src : Value := .nilPointer (.scalar (.int .int))
    ({} : Converter).convertWith {} src (.pointer ports ports.zero) =
        .done (.pointer ports ports.zero) ∧
      ({} : Converter).convertWith {} src (.nilPointer ports) =
        .failed (.noRecipe (.scalar (.int .int)) ports) (.nilPointer ports) := by
  intro ports src
  constructor
  · rfl
  · rfl

end Recast
