import Recast.Proofs.Budget

/-!
Live pointers are transparent. There are two ways past a pointer: recipes for shapes look through
it, and where no recipe is found the pointer is followed. `result?_pointer_left` and
`result?_pointer_right` say that both ways lead to the same result as the conversion without the
pointer. Only the results of conversions that succeed are compared here, so all of it is about
`Settings.result?`.
-/

namespace Recast

open Outcome Recipe

namespace Settings

/-- What a conversion leaves in its slot when it succeeds. -/
def result? (σ : Settings) (src dst : Value) : Option Value := (σ.convert src dst).done?

variable (σ : Settings)

theorem result?_eq_some {src dst dst' : Value} :
    σ.result? src dst = some dst' ↔ σ.convert src dst = .done dst' := done?_eq_some

theorem result?_nil (src : Value) : σ.result? src .nil = some src := by
  rw [result?, convert_eq]
  rfl

theorem start_ne_nil {dst : Value} (h : dst ≠ .nil) : σ.start dst ≠ .nil := by
  rcases σ.start_cases dst with kept | reset
  · rw [kept]
    exact h
  · rw [reset]
    rcases dst with _ | _ | _ | _ | ⟨_, _ | _, _⟩ | _ | _ <;> simp_all [Value.type, Ty.zero]

theorem start_start (dst : Value) : σ.start (σ.start dst) = σ.start dst := by
  cases hm : σ.mergeMode with
  | intoExisting => exact σ.start_of_intoExisting hm _
  | replace => rw [σ.start_of_replace hm, σ.start_of_replace hm, Ty.type_zero]

theorem start_nilPointer (pointee : Ty) : σ.start (.nilPointer pointee) = .nilPointer pointee := by
  rcases σ.start_cases (.nilPointer pointee) with kept | reset
  · exact kept
  · exact reset

theorem isNil_eq_false {dst : Value} (h : dst ≠ .nil) : dst.isNil = false := by
  cases dst <;> simp_all [Value.isNil]

/-- One level, where the destination is a value. -/
theorem result?_eq {src dst : Value} (h : dst ≠ .nil) :
    σ.result? src dst =
      match chosen src (σ.start dst) with
      | some action => (action ⟨σ, σ.convert⟩ src (σ.start dst)).done?
      | none => (follow σ.convert src (σ.start dst)).done? := by
  rw [result?, convert_eq, step, isNil_eq_false h]
  cases chosen src (σ.start dst) with
  | some action => exact done?_mapError _ _
  | none => rfl

theorem result?_of_chosen {src dst : Value} {action : Action} (h : dst ≠ .nil)
    (found : chosen src (σ.start dst) = some action) :
    σ.result? src dst = (action ⟨σ, σ.convert⟩ src (σ.start dst)).done? := by
  rw [σ.result?_eq h, found]

theorem result?_of_start {src dst held : Value} {action : Action} (h : dst ≠ .nil)
    (started : σ.start dst = held) (found : chosen src held = some action) :
    σ.result? src dst = (action ⟨σ, σ.convert⟩ src held).done? := by
  subst started
  exact σ.result?_of_chosen h found

theorem result?_of_not_chosen {src dst : Value} (h : dst ≠ .nil)
    (found : chosen src (σ.start dst) = none) :
    σ.result? src dst = (follow σ.convert src (σ.start dst)).done? := by
  rw [σ.result?_eq h, found]

theorem convert_start (src : Value) {dst : Value} (h : dst ≠ .nil) :
    σ.convert src (σ.start dst) = σ.convert src dst := by
  rw [convert_eq, convert_eq, step, step, isNil_eq_false h, isNil_eq_false (σ.start_ne_nil h),
    start_start]

/-- Replacement forgets all but the type of the destination. -/
theorem convert_reset (mode : σ.mergeMode = .replace) (src dst : Value) :
    σ.convert src dst.reset = σ.convert src dst := by
  by_cases untyped : dst = .nil
  · subst untyped
    rfl
  · have reset : σ.start dst = dst.reset := σ.start_of_replace mode dst
    rw [← reset, σ.convert_start src untyped]

theorem result?_start (src : Value) {dst : Value} (h : dst ≠ .nil) :
    σ.result? src (σ.start dst) = σ.result? src dst := congrArg done? (σ.convert_start src h)

theorem result?_reset (mode : σ.mergeMode = .replace) (src dst : Value) :
    σ.result? src dst.reset = σ.result? src dst := congrArg done? (σ.convert_reset mode src dst)

end Settings

/-! ## Actions for shapes look through pointers -/

namespace Recipe

variable {scope : Scope} {action : Action} {src dst : Value} {pointee : Ty}

theorem byShape_pointer_left {s : Shape} (h : byShape src.shape s = some action) :
    (action scope (.pointer pointee src) dst).done? = (action scope src dst).done? := by
  unfold byShape at h
  split at h <;> cases h
  · rfl
  · rfl
  · rfl
  · rfl
  · rfl
  · rfl
  · simp only [sequenceToSequence, Value.elem]
    split <;> rfl

theorem done?_writeElem_pointer (write : Value → Outcome Cause Value) :
    ((Value.pointer pointee dst).writeElem write).done? =
      (dst.writeElem write).done?.map (.pointer pointee) := done?_map _ _

theorem byShape_pointer_right {s : Shape} (h : byShape s dst.shape = some action) :
    (action scope src (.pointer pointee dst)).done? =
      (action scope src dst).done?.map (.pointer pointee) := by
  unfold byShape at h
  split at h <;> cases h
  · exact done?_writeElem_pointer _
  · exact done?_writeElem_pointer _
  · unfold mapToMap
    split
    · exact done?_writeElem_pointer _
    · rfl
  · unfold structToMap
    split
    · exact done?_writeElem_pointer _
    · rfl
  · unfold mapToStruct
    split
    · exact done?_writeElem_pointer _
    · rfl
  · unfold structToStruct
    split
    · exact done?_writeElem_pointer _
    · rfl
  · unfold sequenceToSequence
    split
    · exact done?_writeElem_pointer _
    · rfl

end Recipe

/-! ## Pointers on either side -/

namespace Settings

variable (σ : Settings)

/-- **A live pointer to the source is looked through**, in either merge mode. -/
theorem result?_pointer_left (pointee : Ty) (src : Value) {dst : Value} (h : dst ≠ .nil) :
    σ.result? (.pointer pointee src) dst = σ.result? src dst := by
  cases shaped : byShape src.shape (σ.start dst).shape with
  | some action =>
    have throughPointer : chosen (.pointer pointee src) (σ.start dst) = some action := by
      rw [chosen_pointer_left, shaped]
    rw [σ.result?_of_chosen h throughPointer, σ.result?_of_chosen h (chosen_of_byShape shaped)]
    exact byShape_pointer_left shaped
  | none =>
    have notChosen : chosen (.pointer pointee src) (σ.start dst) = none := by
      rw [chosen_pointer_left, shaped]
    rw [σ.result?_of_not_chosen h notChosen, ← σ.result?_start src h]
    rfl

theorem result?_elem (src : Value) {dst : Value} (h : dst ≠ .nil) :
    σ.result? src.elem dst = σ.result? src dst := by
  fun_induction Value.elem src with
  | case1 pointee target ih => rw [ih, σ.result?_pointer_left pointee target h]
  | case2 => rfl

/-- A nil pointer is followed to the zero value that it stands for, unless a shape is for nil. -/
theorem result?_nilPointer_left {pointee : Ty} {dst : Value} (h : dst ≠ .nil)
    (notShaped : byShape .nil (σ.start dst).shape = none) :
    σ.result? (.nilPointer pointee) dst = σ.result? pointee.zero dst := by
  have notChosen : chosen (.nilPointer pointee) (σ.start dst) = none := by
    rw [chosen_nilPointer_left, notShaped]
  rw [σ.result?_of_not_chosen h notChosen, ← σ.result?_start pointee.zero h]
  rfl

theorem done?_follow_pointer_right {f : Value → Value → Outcome ConversionError Value}
    {src dst : Value} {pointee : Ty} (plain : src.isPointer = false) :
    (follow f src (.pointer pointee dst)).done? = (f src dst).done?.map (.pointer pointee) := by
  cases src <;> first | exact done?_map _ _ | simp [Value.isPointer] at plain

/-- **A live pointer to the destination is kept**, around the result without it. -/
theorem result?_pointer_right (hm : σ.mergeMode = .intoExisting) (pointee : Ty) (src : Value)
    {dst : Value} (h : dst ≠ .nil) :
    σ.result? src (.pointer pointee dst) = (σ.result? src dst).map (.pointer pointee) := by
  have notNil : Value.pointer pointee dst ≠ .nil := by simp
  have kept := σ.start_of_intoExisting hm
  -- The induction is on the source, since that is the side on which pointers are followed first.
  induction src using Value.heightInduction with
  | step src ih =>
    cases shaped : byShape src.shape dst.shape with
    | some action =>
      have found : chosen src (σ.start (.pointer pointee dst)) = some action := by
        rw [kept, chosen_pointer_right, shaped]
      have foundBehind : chosen src (σ.start dst) = some action := by
        rw [kept, chosen_of_byShape shaped]
      rw [σ.result?_of_chosen notNil found, σ.result?_of_chosen h foundBehind, kept, kept]
      exact byShape_pointer_right shaped
    | none =>
      by_cases plain : src.isPointer = false
      · have notChosen : chosen src (σ.start (.pointer pointee dst)) = none := by
          rw [kept, chosen_pointer_right, shaped]
        rw [σ.result?_of_not_chosen notNil notChosen, kept]
        exact done?_follow_pointer_right plain
      · cases src with
        | pointer p target =>
          have lower : target.height < (Value.pointer p target).height :=
            Value.height_lt_of_mem_parts (List.mem_singleton_self target)
          rw [σ.result?_pointer_left p target notNil, σ.result?_pointer_left p target h]
          exact ih target lower
        | nilPointer p =>
          have lower : p.zero.height < (Value.nilPointer p).height :=
            Nat.lt_succ_of_le (Ty.height_zero_le p)
          rw [σ.result?_nilPointer_left notNil (by rw [kept]; exact shaped),
            σ.result?_nilPointer_left h (by rw [kept]; exact shaped)]
          exact ih p.zero lower
        | _ => simp [Value.isPointer] at plain

/-- A nil pointer is allocated for a source that is no nil pointer itself. -/
theorem result?_nilPointer_right (pointee : Ty) {src : Value} (live : src.elem.isPointer = false) :
    σ.result? src (.nilPointer pointee) =
      (σ.result? src.elem pointee.zero).map (.pointer pointee) := by
  have notNil : Value.nilPointer pointee ≠ .nil := by simp
  rw [← σ.result?_elem src notNil, σ.result?_of_not_chosen notNil, start_nilPointer]
  · cases elem : src.elem <;> first | exact done?_map _ _ | simp [elem, Value.isPointer] at live
  · rw [start_nilPointer, chosen_nilPointer_right]

end Settings

namespace Converter

namespace Standard

variable {c : Converter} {options : CallOptions} (h : c.Standard options)
include h

theorem result?_eq_some {src dst dst' : Value} :
    c.convertWith options src dst = .done dst' ↔
      (c.settingsOf options).result? src dst = some dst' := by
  rw [h.convertWith_eq_done, Settings.result?_eq_some]

theorem withoutOptions : c.Standard {} := ⟨h.recipes, rfl⟩

/-- **Live pointers are transparent.** A pointer to the source changes nothing in either merge mode.
When merging into what exists, a pointer to the destination stays around the result, so that it
makes no difference whether the converter or the caller looks through it. -/
theorem pointers_transparent (p q : Ty) (src : Value) {dst : Value} (hd : dst ≠ .nil) :
    (∀ dst', c.convertWith options (.pointer p src) dst = .done dst' ↔
      c.convertWith options src dst = .done dst') ∧
    ((c.settingsOf options).mergeMode = .intoExisting →
      ∀ dst', c.convertWith options src (.pointer q dst) = .done dst' ↔
        ∃ slot, c.convertWith options src dst = .done slot ∧ dst' = .pointer q slot) ∧
    (c.settings.mergeMode = .intoExisting →
      ∀ dst', c.convertIntoPointer src (.pointer q dst) = .done dst' ↔
        c.convert src (.pointer q dst) = .done dst') := by
  refine ⟨fun dst' => ?_, fun hm dst' => ?_, fun hm dst' => ?_⟩
  · rw [h.result?_eq_some, h.result?_eq_some, Settings.result?_pointer_left _ p src hd]
  · rw [h.result?_eq_some, Settings.result?_pointer_right _ hm q src hd, Option.map_eq_some_iff]
    simp only [h.result?_eq_some, eq_comm]
  · have plain := h.withoutOptions
    have merging : (c.settingsOf {}).mergeMode = .intoExisting := hm
    rw [convertIntoPointer, map_eq_done, convert, convert, plain.result?_eq_some,
      Settings.result?_pointer_right _ merging q src hd, Option.map_eq_some_iff]
    simp only [plain.result?_eq_some]

end Standard

/-- An integer is wrapped in the same way whatever pointers lead to it and to its destination. -/
theorem pointers_transparent_wrapped :
    ({} : Converter).convertWith {} (Value.int .int 300).pointerTo (.int .int8 0) =
        .done (.int .int8 44) ∧
      ({} : Converter).convertWith {} (.int .int 300) (Value.int .int8 0).pointerTo =
        .done (Value.int .int8 44).pointerTo ∧
      ({} : Converter).convertIntoPointer (.int .int 300) (Value.int .int8 0).pointerTo =
        .done (Value.int .int8 44).pointerTo := by
  have standard : ({} : Converter).Standard {} := ⟨rfl, rfl⟩
  have typed : Value.int .int8 0 ≠ .nil := by simp
  obtain ⟨left, right, into⟩ := standard.pointers_transparent (.scalar (.int .int))
    (.scalar (.int .int8)) (.int .int 300) typed
  have kept := (right rfl _).2 ⟨.int .int8 44, rfl, rfl⟩
  exact ⟨(left _).2 rfl, kept, (into rfl _).2 kept⟩

end Converter

end Recast
