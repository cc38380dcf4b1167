import Recast.Conversion.Extract
import Recast.Proofs.Pointers
import Recast.Proofs.Remnants

/-!
Failures are rolled back. A call that fails leaves its destination as it was, whatever its recipes
have written by then. Below the call, conversions write in place, and one that fails may leave a
part of its result. The standard recipes leave none in a map or in a scalar when merging into what
exists (`Settings.convert_untouched`): a map is rebuilt beside the old one, a scalar is written
last, and pointers are followed without a trace.
-/

namespace Recast

open Outcome Recipe

theorem Outcome.Leaves.ofExcept_untouched {ε α : Type} {kept : α} (e : Except ε α) :
    (Outcome.ofExcept kept e).Leaves (· = kept) := by
  cases e with
  | ok => trivial
  | error => rfl

theorem Outcome.Leaves.writeElem {ε : Type} {write : Value → Outcome ε Value} {dst : Value}
    (h : (write dst.elem).Leaves (· = dst.elem)) : (dst.writeElem write).Leaves (· = dst) := by
  fun_induction Value.writeElem write dst with
  | case1 pointee target ih => exact ((ih h).mono fun _ => congrArg (Value.pointer pointee)).map
  | case2 v live => rwa [Value.elem_eq_self live] at h

namespace Recipe

variable {scope : Scope} {src dst : Value}

/-- Filling publishes the entries when all of them are there. -/
theorem fillTarget_untouched (pairs : Entries) :
    (fillTarget scope pairs dst).Leaves (· = dst) := by
  apply Leaves.writeElem
  cases dst.elem with
  | map key value old =>
    exact ((fillMap_leaves key value old pairs).mono fun _ => congrArg (Value.map key value)).map
  | _ => rfl

/-- An action for a map or for a scalar writes it last, if at all. -/
theorem chosen_untouched {action : Action} (whole : dst.shape = .map ∨ dst.shape = .scalar)
    (found : chosen src dst = some action) : (action scope src dst).Leaves (· = dst) := by
  rcases exact_or_byShape found with ⟨s, d, rfl, rfl, rfl⟩ | ⟨s, old, rfl, rfl, rfl⟩ |
    ⟨items, s, rfl, rfl, rfl⟩ | ⟨items, s, rfl, rfl, rfl⟩ | found
  · exact Leaves.ofExcept_untouched _
  · trivial
  · exact Leaves.ofExcept_untouched _
  · exact Leaves.ofExcept_untouched _
  · rcases whole with whole | whole <;> rw [whole] at found
    · cases source : src.shape <;> rw [source] at found <;> cases found
      · exact Leaves.writeElem trivial
      · unfold mapToMap
        split
        · exact fillTarget_untouched _
        · rfl
      · unfold structToMap
        split
        · exact fillTarget_untouched _
        · rfl
    · cases source : src.shape <;> rw [source] at found <;> cases found

end Recipe

namespace Settings

theorem follow_untouched {f : Value → Value → Outcome ConversionError Value} {src dst : Value}
    (whole : dst.shape = .map ∨ dst.shape = .scalar)
    (nested : ∀ s d, d.shape = .map ∨ d.shape = .scalar → (f s d).Leaves (· = d)) :
    (follow f src dst).Leaves (· = dst) := by
  unfold follow
  split
  · exact nested _ _ whole
  · exact nested _ _ whole
  · next pointee target _ _ =>
    exact ((nested _ target whole).mono fun _ => congrArg (Value.pointer pointee)).map
  · simp [Value.shape] at whole
  · rfl

/-- **A failure leaves a map or a scalar as it was**, when merging into what exists, however deep
below the conversion it happened and whichever budget there was. -/
theorem convert_untouched {σ : Settings} (hm : σ.mergeMode = .intoExisting) (budget : Nat)
    {src dst : Value} (whole : dst.shape = .map ∨ dst.shape = .scalar) :
    ((Context.standard σ).convert budget src dst).Leaves (· = dst) := by
  induction budget generalizing src dst with
  | zero => trivial
  | succ budget ih =>
    rw [convert_succ]
    unfold step
    rw [σ.start_of_intoExisting hm]
    split
    · trivial
    · split
      · next action found => exact (chosen_untouched whole found).mapError _
      · exact follow_untouched whole fun s d whole => ih whole

end Settings

namespace Converter

/-- **A call that fails leaves its destination as it was**, whatever its recipes do: they may write
before they fail, convert what they like and go on after failures. Nested conversions by the
standard recipes leave maps and scalars as they were, behind live pointers as well. -/
theorem failure_rolls_back (c : Converter) (options : CallOptions) :
    (∀ src dst error left, c.convertWith options src dst = .failed error left → left = dst) ∧
      (∀ src dst error left, c.convertIntoPointer src dst = .failed error left → left = dst) ∧
      (∀ pathOptions data expression dst error left,
        c.extract pathOptions data expression dst = .failed error left → left = dst) ∧
      (c.Standard options → (c.settingsOf options).mergeMode = .intoExisting →
        ∀ budget src dst error left, dst.shape = .map ∨ dst.shape = .scalar →
          (c.context options).convert budget src dst = .failed error left → left = dst) := by
  refine ⟨fun _ _ _ _ failed => rollback_failed failed, ?_, ?_, ?_⟩
  · intro src dst error left failed
    unfold convertIntoPointer at failed
    split at failed
    · next pointee target =>
      obtain ⟨inside, fails, rfl⟩ := map_eq_failed.1 failed
      exact congrArg (Value.pointer pointee) (rollback_failed fails)
    · cases failed
      rfl
  · intro pathOptions data expression dst error left failed
    unfold extract at failed
    split at failed
    · cases failed
      rfl
    · obtain ⟨cause, failed, -⟩ := mapError_eq_failed.1 failed
      exact rollback_failed failed
  · intro standard hm budget src dst error left whole failed
    have leaves : ((c.context options).convert budget src dst).Leaves (· = dst) := by
      rw [standard.context_eq]
      exact Settings.convert_untouched hm budget whole
    rwa [failed] at leaves

/-- An empty map behind a pointer, for which one port is converted before the next one is refused.
The map stays empty. Where a recipe writes before it fails, the nested conversion leaves what it
wrote and the call does not. -/
theorem failure_rolls_back_ports :
    let ports : Ty := .map (.scalar (.int .uint16)) .string
    let dst : Value := .pointer ports ports.zero
    let src : Value := .map .string .string
      [(.string "80", .string "web"), (.string "domain", .string "dns")]
    let writing : Recipe := ⟨.ofShape .map, .ofShape .map,
      Recipe.assignAndFail (.string "written") (.message "refused")⟩
    let c : Converter := { recipes := [writing] }
    (∃ error left, (({} : Converter).context {}).run src dst = .failed error left ∧ left = dst) ∧
      (∃ error, (c.context {}).run src dst = .failed error (.string "written")) ∧
      ∃ error left, c.convertWith {} src dst = .failed error left ∧ left = dst := by
  intro ports dst src writing c
  have called : ∃ error left, c.convertWith {} src dst = .failed error left := ⟨_, _, rfl⟩
  obtain ⟨error, left, failed⟩ : ∃ error left,
      (({} : Converter).context {}).run src dst = .failed error left := ⟨_, _, rfl⟩
  obtain ⟨error', left', failed'⟩ := called
  refine ⟨⟨error, left, failed, ?_⟩, ⟨_, rfl⟩, ⟨error', left', failed', ?_⟩⟩
  · exact (failure_rolls_back {} {}).2.2.2 ⟨rfl, rfl⟩ rfl _ src dst error left (.inl rfl) failed
  · exact (failure_rolls_back c {}).1 src dst error' left' failed'

end Converter

end Recast
