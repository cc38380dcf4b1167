import Recast.Proofs.Budget

/-!
Conversion ends. It goes on one level at a time (`Settings.convert_succ`), and each level calls
conversions that have less ahead of them: a lower source, where a nil pointer counts for more than
the zero value that it stands for, or the same source and fewer pointers on the way in the
destination (`Settings.Calls.descends`). So the calls are well-founded, and no other function has
the equation of one level (`Settings.eq_convert`).
-/

namespace Recast

open Outcome Recipe

/-- Two runs that end alike. -/
def Simulation.ending (σ : Settings) : Simulation σ σ where
  Rel o p := o = p ∧ p ≠ .exhausted
  done _ := ⟨rfl, by simp⟩
  failed _ _ := ⟨rfl, by simp⟩
  unknown struct name := by
    refine ⟨rfl, ?_⟩
    unfold unknownName
    split <;> simp
  sequel := by
    rintro _ _ o _ left f g ⟨rfl, ends⟩ hf
    cases o with
    | done slot => exact hf slot
    | failed error slot => exact ⟨rfl, by simp [Outcome.sequel]⟩
    | exhausted => exact absurd rfl ends
  wrap := by
    rintro _ o _ source target ⟨rfl, ends⟩
    exact ⟨rfl, mapError_ne_exhausted ends⟩

namespace Settings

variable {σ : Settings} {f g : Value → Value → Outcome ConversionError Value} {s d src dst : Value}

/-! ## Calls -/

/-- The conversion of `src` into `dst` calls that of `s` into `d`: if all other conversions end and
that one does not, then neither does this one. -/
def Calls (σ : Settings) (src dst s d : Value) : Prop :=
  ∃ f : Value → Value → Outcome ConversionError Value, f s d = .exhausted ∧
    (∀ s' d', f s' d' = .exhausted → s' = s ∧ d' = d) ∧ σ.step f src dst = .exhausted

/-- One level ends, in a way that is settled, as soon as the conversions end that have less ahead of
them. -/
theorem step_ends (h : ∀ s d, Descends s d src dst → f s d = g s d ∧ g s d ≠ .exhausted) :
    σ.step f src dst = σ.step g src dst ∧ σ.step g src dst ≠ .exhausted := by
  have related : (Simulation.ending σ).RelConversion (σ.step f src dst) (σ.step g src dst) :=
    (Simulation.ending σ).step rfl fun s d below =>
      ⟨congrArg _ (h s d below).1, mapError_ne_exhausted (h s d below).2⟩
  obtain ⟨same, ends⟩ := related
  refine ⟨mapError_injective (fun _ _ => Cause.conversion.inj) same, fun spent => ends ?_⟩
  rw [spent]
  rfl

/-- **Every call descends.** -/
theorem Calls.descends (h : σ.Calls src dst s d) : Descends s d src dst := by
  obtain ⟨f, -, alone, stuck⟩ := h
  by_contra notBelow
  have total : ∀ s' d', Descends s' d' src dst → f s' d' ≠ .exhausted := by
    intro s' d' below spent
    obtain ⟨rfl, rfl⟩ := alone s' d' spent
    exact notBelow below
  exact (step_ends fun s' d' below => ⟨rfl, total s' d' below⟩).2 stuck

theorem descends_wellFounded :
    WellFounded fun p q : Value × Value => Descends p.1 p.2 q.1 q.2 :=
  InvImage.wf (fun p : Value × Value => ahead p.1 p.2)
    (Prod.lex ⟨_, Nat.lt_wfRel.wf⟩ ⟨_, Nat.lt_wfRel.wf⟩).wf

/-- No chain of calls goes on for ever. -/
theorem calls_wellFounded (σ : Settings) :
    WellFounded fun p q : Value × Value => σ.Calls q.1 q.2 p.1 p.2 :=
  Subrelation.wf Calls.descends descends_wellFounded

/-- A nil pointer that no recipe is for calls the conversion of the zero value that it stands
for. -/
theorem calls_zero {pointee : Ty} (notNil : dst.isNil = false)
    (notChosen : chosen (.nilPointer pointee) (σ.start dst) = none) :
    σ.Calls (.nilPointer pointee) dst pointee.zero (σ.start dst) := by
  classical
  refine ⟨fun s d => if s = pointee.zero ∧ d = σ.start dst then .exhausted else .done d, ?_, ?_, ?_⟩
  · simp
  · intro s d spent
    by_contra other
    simp [other] at spent
  · simp [step, notNil, notChosen, follow]

/-! ## The equation of one level -/

/-- **Conversion is the one function with the equation of one level.** -/
theorem eq_convert (h : ∀ src dst, f src dst = σ.step f src dst) : f = σ.convert := by
  funext src dst
  induction hp : (src, dst) using descends_wellFounded.induction generalizing src dst with
  | _ p ih =>
    subst hp
    rw [h, σ.convert_eq]
    exact (step_ends fun s d below => ⟨ih (s, d) below s d rfl, σ.convert_ends s d⟩).1

end Settings

/-! ## Calls of the converter -/

/-- **Conversion ends.** A conversion within a budget is one level, `Settings.step`, over
conversions within a smaller one, so `Settings.Calls` tells the calls of the conversion itself.
Every call has less ahead of it than the conversion that makes it, and the budget, computed from the
two values alone, is never spent: with any larger one the outcome is that of the converter, which is
the one function with the equation of one level. -/
theorem Converter.Standard.convert_terminates {c : Converter} {options : CallOptions}
    (h : c.Standard options) (src dst : Value) :
    (∀ n, (c.context options).convert (n + 1) src dst =
        (c.settingsOf options).step ((c.context options).convert n) src dst) ∧
      (∀ s d, (c.settingsOf options).Calls src dst s d → Settings.Descends s d src dst) ∧
      (∀ n, budget src dst ≤ n →
        (c.context options).convert n src dst ≠ .exhausted ∧
          (c.context options).convert n src dst = (c.context options).run src dst) ∧
      ∀ f, (∀ src dst, f src dst = (c.settingsOf options).step f src dst) →
        f = (c.context options).run := by
  rw [h.context_eq]
  refine ⟨fun n => Settings.convert_succ _ n src dst, fun s d => Settings.Calls.descends,
    fun n hn => ?_, fun f => Settings.eq_convert⟩
  exact ⟨Settings.convert_ne_exhausted _ hn, Settings.convert_eq_of_budget_le _ hn⟩

/-- Two nil pointers to nil pointers, and no recipe for either of them. The first call turns the
source into the nil pointer that it stands for, and the budget is 17. -/
theorem Converter.Standard.convert_terminates_nilPointers :
    let σ : Settings := ({} : Converter).settingsOf {}
    let src : Value := .nilPointer (.pointer (.slice .string))
    let dst : Value := .nilPointer (.pointer (.slice (.scalar (.int .int))))
    let called : Value := .nilPointer (.slice .string)
    ({} : Converter).Standard {} ∧ σ.Calls src dst called dst ∧
      Settings.Descends called dst src dst ∧
      (({} : Converter).context {}).convert 17 src dst ≠ .exhausted := by
  intro σ src dst called
  have calls : σ.Calls src dst called dst := Settings.calls_zero rfl rfl
  have standard : ({} : Converter).Standard {} := ⟨rfl, rfl⟩
  obtain ⟨-, descends, ends, -⟩ := standard.convert_terminates src dst
  exact ⟨standard, calls, descends called dst calls, (ends 17 (by decide)).1⟩

end Recast
