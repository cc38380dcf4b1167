import Recast.Proofs.Budget

/-!
Names without a field, refused or dropped. A strict run and a lenient one differ in this setting
alone. They are one run, unless the strict one fails at such a name (`Simulation.leniency`), and the
lenient one never does.
-/

namespace Recast

open Outcome Recipe

/-- What a lenient run may be beside the strict one, where `unknown` tells the failures at a name
without a field. -/
structure Leniency {ε α : Type} (unknown : ε → Bool) (strict lenient : Outcome ε α) : Prop where
  agree : strict = lenient ∨ ∃ error slot, strict = .failed error slot ∧ unknown error = true
  known : ∀ {error slot}, lenient = .failed error slot → unknown error = false

namespace Leniency

variable {ε ε' α β : Type} {unknown : ε → Bool} {unknown' : ε' → Bool}
  {strict lenient : Outcome ε α}

theorem done (slot : α) : Leniency unknown (.done slot) (.done slot) := ⟨.inl rfl, by simp⟩

theorem exhausted : Leniency (α := α) unknown .exhausted .exhausted := ⟨.inl rfl, by simp⟩

theorem failed {error : ε} (slot : α) (h : unknown error = false) :
    Leniency unknown (.failed error slot) (.failed error slot) := by
  refine ⟨.inl rfl, fun same => ?_⟩
  cases same
  exact h

/-- A strict run that fails at a name leaves open how the lenient one goes on. -/
theorem sequel {left : α → β} {f g : α → Outcome ε β} (h : Leniency unknown strict lenient)
    (hf : ∀ slot, Leniency unknown (f slot) (g slot)) :
    Leniency unknown (strict.sequel left f) (lenient.sequel left g) := by
  constructor
  · rcases h.agree with rfl | ⟨error, slot, rfl, stopped⟩
    · cases strict with
      | done slot => exact (hf slot).agree
      | failed | exhausted => exact .inl rfl
    · exact .inr ⟨error, left slot, rfl, stopped⟩
  · intro error slot failed
    cases lenient with
    | done slot => exact (hf slot).known failed
    | failed error left =>
      cases failed
      exact h.known rfl
    | exhausted => cases failed

theorem mapError {f : ε → ε'} (h : Leniency unknown strict lenient)
    (hf : ∀ error, unknown' (f error) = unknown error) :
    Leniency unknown' (strict.mapError f) (lenient.mapError f) := by
  constructor
  · rcases h.agree with rfl | ⟨error, slot, rfl, stopped⟩
    · exact .inl rfl
    · exact .inr ⟨f error, slot, rfl, (hf error).trans stopped⟩
  · intro error slot failed
    cases lenient with
    | done | exhausted => cases failed
    | failed error left =>
      cases failed
      exact (hf error).trans (h.known rfl)

theorem of_mapError {f : ε → ε'} (inj : ∀ a b, f a = f b → a = b)
    (h : Leniency unknown' (strict.mapError f) (lenient.mapError f)) :
    Leniency (fun error => unknown' (f error)) strict lenient := by
  constructor
  · rcases h.agree with same | ⟨error, slot, failed, stopped⟩
    · exact .inl (mapError_injective inj same)
    · cases strict with
      | done | exhausted => cases failed
      | failed error left =>
        cases failed
        exact .inr ⟨_, _, rfl, stopped⟩
  · rintro error slot rfl
    exact h.known rfl

end Leniency

/-- A failure that wraps another one has its root cause. -/
theorem Cause.isUnknownField_wrapped (source target : Ty) (cause : Cause) :
    (Cause.conversion (.failed source target cause)).isUnknownField = cause.isUnknownField := by
  cases cause <;> rfl

/-- The strict run and the lenient one, step by step. -/
def Simulation.leniency (mode : MergeMode) : Simulation ⟨false, mode⟩ ⟨true, mode⟩ where
  Rel := Leniency Cause.isUnknownField
  done := .done
  failed := .failed
  unknown struct name := ⟨.inr ⟨_, _, rfl, rfl⟩, by simp [unknownName]⟩
  sequel _ _ _ h hf := h.sequel hf
  wrap source target h := h.mapError (Cause.isUnknownField_wrapped source target)

theorem Settings.leniency (mode : MergeMode) (src dst : Value) :
    Leniency ConversionError.isUnknownField (Settings.convert ⟨false, mode⟩ src dst)
      (Settings.convert ⟨true, mode⟩ src dst) := by
  have nested := (Simulation.leniency mode).convert rfl .exhausted
    (budget src dst + extraBudget) src dst
  exact Leniency.of_mapError (f := Cause.conversion) (fun _ _ => Cause.conversion.inj) nested

/-- **Skipping unknown fields removes the failures at them and nothing else.** A lenient call does
what a strict one does, unless that one fails at a name without a field, at whatever depth. No
lenient call fails so. -/
theorem Converter.Standard.skipUnknownFields_only {c : Converter} {options : CallOptions}
    (h : c.Standard options) (src dst : Value) :
    let strict := c.convertWith { options with skipUnknownFields := some false } src dst
    let lenient := c.convertWith { options with skipUnknownFields := some true } src dst
    (∀ dst', strict = .done dst' → lenient = .done dst') ∧
      (∀ error slot, strict = .failed error slot → error.isUnknownField = false →
        lenient = .failed error slot) ∧
      (∀ error slot, lenient = .failed error slot → error.isUnknownField = false) := by
  intro strict lenient
  have calls : Leniency ConversionError.isUnknownField strict lenient := by
    have standard : ∀ skip, c.Standard { options with skipUnknownFields := some skip } :=
      fun _ => ⟨h.recipes, h.callRecipes⟩
    simp only [strict, lenient, (standard _).convertWith_eq, rollback, useFor_eq_sequel]
    exact (Settings.leniency _ src dst).sequel fun slot => .done slot
  refine ⟨fun dst' done => ?_, fun error slot failed other => ?_, fun error slot => calls.known⟩
  · rcases calls.agree with same | ⟨error, slot, failed, -⟩
    · rw [← same, done]
    · rw [done] at failed
      cases failed
  · rcases calls.agree with same | ⟨error', slot', failed', unknown⟩
    · rw [← same, failed]
    · rw [failed] at failed'
      cases failed'
      rw [other] at unknown
      cases unknown

/-- Structs within structs. A strict call that is done and one that fails at a text that is no
number agree with the lenient ones. A strict call that fails at the name `colour` does not. -/
theorem Converter.Standard.skipUnknownFields_only_nested :
    let src (address : Entries) : Value := .map .string .any
      [(.string "listen", .map .string .any address)]
    let dst (port : Int) : Value := .struct "Server"
      [("Listen", .struct "Address" [("Port", .int .uint16 port)])]
    let call (skip : Bool) (address : Entries) : Outcome ConversionError Value :=
      ({} : Converter).convertWith { skipUnknownFields := some skip } (src address) (dst 0)
    let numbered : Entries := [(.string "port", .string "80")]
    let misspelt : Entries := [(.string "port", .string "eighty"), (.string "colour", .nil)]
    let unknown : Entries := [(.string "port", .string "80"), (.string "colour", .nil)]
    (call false numbered = .done (dst 80) ∧ call true numbered = .done (dst 80)) ∧
      (∃ error, call false misspelt = .failed error (dst 0) ∧ error.isUnknownField = false ∧
        call true misspelt = .failed error (dst 0)) ∧
      (∃ error, call false unknown = .failed error (dst 0) ∧ error.isUnknownField = true ∧
        call true unknown = .done (dst 80)) := by
  intro src dst call numbered misspelt unknown
  have standard : ({} : Converter).Standard {} := ⟨rfl, rfl⟩
  have agrees (address : Entries) := standard.skipUnknownFields_only (src address) (dst 0)
  have done : call false numbered = .done (dst 80) := by rfl
  refine ⟨⟨done, (agrees numbered).1 _ done⟩, ?_, ⟨_, rfl, rfl, rfl⟩⟩
  have failed : ∃ error, call false misspelt = .failed error (dst 0) ∧
      error.isUnknownField = false := ⟨_, rfl, rfl⟩
  obtain ⟨error, strict, other⟩ := failed
  exact ⟨error, strict, other, (agrees misspelt).2.1 error _ strict other⟩

end Recast
