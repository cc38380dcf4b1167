import Recast.Conversion.Converter
import Recast.Proofs.Simulation

/-!
Conversion by the standard recipes alone, one level at a time. `Settings.step` is one level over any
nested conversion. Simulations go through it (`Simulation.step`), and so through whole conversions
(`Simulation.convert`). That outcomes are ordered by how far the budget went is one of them: a
larger budget changes no outcome that a smaller one reached (`Settings.convert_approx`).
-/

namespace Recast

/-- A context without recipes of one's own. -/
def Context.standard (σ : Settings) : Context := ⟨[], Recipe.standard, σ⟩

namespace Settings

/-- What a conversion starts from when the destination holds `dst`. -/
def start (σ : Settings) (dst : Value) : Value := (Context.standard σ).start dst

/-- Where no recipe is for the values: a pointer is followed, on the source side first. -/
def follow (f : Value → Value → Outcome ConversionError Value) :
    (src dst : Value) → Outcome ConversionError Value
  | .pointer _ target, dst => f target dst
  | .nilPointer pointee, dst => f pointee.zero dst
  | src, .pointer pointee target => (f src target).map (.pointer pointee)
  | src, .nilPointer pointee => (f src pointee.zero).map (.pointer pointee)
  | src, dst => .failed (.noRecipe src.type dst.type) dst

/-- One level of a conversion whose nested conversions are made by `f`. -/
def step (σ : Settings) (f : Value → Value → Outcome ConversionError Value) (src dst : Value) :
    Outcome ConversionError Value :=
  if dst.isNil then .done src
  else
    match Recipe.chosen src (σ.start dst) with
    | some action =>
      (action ⟨σ, f⟩ src (σ.start dst)).mapError (.failed src.type (σ.start dst).type)
    | none => follow f src (σ.start dst)

theorem convert_succ (σ : Settings) (budget : Nat) (src dst : Value) :
    (Context.standard σ).convert (budget + 1) src dst =
      σ.step ((Context.standard σ).convert budget) src dst := by
  have choice := Recipe.find?_standard src (σ.start dst)
  simp only [Context.convert, step]
  split
  · rfl
  · have sameStart : (Context.standard σ).start dst = σ.start dst := rfl
    have sameRecipe : (Context.standard σ).recipe? src (σ.start dst) =
        Recipe.find? Recipe.standard src.side (σ.start dst).side := rfl
    rw [sameStart, sameRecipe]
    cases found : Recipe.find? Recipe.standard src.side (σ.start dst).side with
    | none =>
      rw [found] at choice
      simp only [← choice, Option.map_none]
      unfold follow
      rfl
    | some recipe =>
      rw [found] at choice
      simp only [← choice, Option.map_some]
      rfl

/-- What a conversion has ahead of it: the levels of the source, where a nil pointer counts for more
than the zero value that it stands for, and then the pointers on the way in the destination. -/
def ahead (src dst : Value) : Nat × Nat := (src.height, dst.way)

/-- The conversion of `s` into `d` has less ahead of it than that of `src` into `dst`. -/
def Descends (s d src dst : Value) : Prop :=
  Prod.Lex (· < ·) (· < ·) (ahead s d) (ahead src dst)

theorem descends_of_lower {s d src dst : Value} (h : s.height < src.height) :
    Descends s d src dst := .left _ _ h

theorem descends_of_nearer {d src dst : Value} (h : d.way < dst.way) :
    Descends src d src dst := .right _ h

theorem start_of_intoExisting (σ : Settings) (hm : σ.mergeMode = .intoExisting) (dst : Value) :
    σ.start dst = dst := by
  simp only [start, Context.start, Context.standard, hm]

theorem start_of_replace (σ : Settings) (hm : σ.mergeMode = .replace) (dst : Value) :
    σ.start dst = dst.type.zero := by
  simp only [start, Context.start, Context.standard, hm, Value.reset]

/-- A conversion goes on from what is there, or from the zero value of its type. -/
theorem start_cases (σ : Settings) (dst : Value) :
    σ.start dst = dst ∨ σ.start dst = dst.type.zero := by
  cases hm : σ.mergeMode with
  | intoExisting => exact .inl (σ.start_of_intoExisting hm dst)
  | replace => exact .inr (σ.start_of_replace hm dst)

theorem way_start (σ : Settings) (dst : Value) : (σ.start dst).way ≤ dst.way := by
  rcases σ.start_cases dst with kept | reset
  · exact Nat.le_of_eq (congrArg Value.way kept)
  · rw [reset]
    exact Nat.le_trans (Ty.way_zero _) (Value.way_type dst)

theorem start_congr {σ σ' : Settings} (h : σ.mergeMode = σ'.mergeMode) (dst : Value) :
    σ.start dst = σ'.start dst := by
  simp only [start, Context.start, Context.standard, h]

end Settings

/-! ## Two runs level by level -/

open Outcome

namespace Simulation

variable {σ σ' : Settings} (S : Simulation σ σ') {α β : Type}

theorem mapConversion {o p : Outcome ConversionError α} (h : S.RelConversion o p) (f : α → β) :
    S.RelConversion (o.map f) (p.map f) := by
  have mapped := S.map h f
  rwa [map_mapError, map_mapError] at mapped

theorem follow {f g : Value → Value → Outcome ConversionError Value} {src dst : Value}
    (lower : ∀ s, s.height < src.height → S.RelConversion (f s dst) (g s dst))
    (nearer : ∀ d, d.way < dst.way → S.RelConversion (f src d) (g src d)) :
    S.RelConversion (Settings.follow f src dst) (Settings.follow g src dst) := by
  unfold Settings.follow
  split
  · next pointee target =>
    have part : target ∈ (Value.pointer pointee target).parts := List.mem_singleton_self target
    exact lower target (Value.height_lt_of_mem_parts part)
  · next pointee => exact lower _ (Nat.lt_succ_of_le (Ty.height_zero_le pointee))
  · next pointee target _ _ =>
    exact S.mapConversion (nearer target (by simp only [Value.way]; omega)) _
  · next pointee _ _ =>
    have := Ty.way_zero pointee
    exact S.mapConversion (nearer pointee.zero (by simp only [Value.way]; omega)) _
  · exact S.failed _ rfl

/-- One level is related to another if the conversions nested in them are, as far as these have less
ahead of them. -/
theorem step (mode : σ.mergeMode = σ'.mergeMode)
    {f g : Value → Value → Outcome ConversionError Value} {src dst : Value}
    (h : ∀ s d, Settings.Descends s d src dst → S.RelConversion (f s d) (g s d)) :
    S.RelConversion (σ.step f src dst) (σ'.step g src dst) := by
  have lower : ∀ s d, s.height < src.height → S.RelConversion (f s d) (g s d) :=
    fun s d hs => h s d (Settings.descends_of_lower hs)
  unfold Settings.step
  rw [← Settings.start_congr mode dst]
  split
  · exact S.done src
  · cases found : Recipe.chosen src (σ.start dst) with
    | some action =>
      have wrapped := S.wrap src.type (σ.start dst).type (S.chosen lower found)
      simpa only [RelConversion, mapError_mapError] using wrapped
    | none =>
      refine S.follow (fun s => lower s _) fun d hd => ?_
      exact h src d (Settings.descends_of_nearer (Nat.lt_of_lt_of_le hd (σ.way_start dst)))

theorem convert (mode : σ.mergeMode = σ'.mergeMode)
    (spent : S.RelConversion (α := Value) .exhausted .exhausted) (budget : Nat) (src dst : Value) :
    S.RelConversion ((Context.standard σ).convert budget src dst)
      ((Context.standard σ').convert budget src dst) := by
  induction budget generalizing src dst with
  | zero => exact spent
  | succ budget ih =>
    rw [Settings.convert_succ, Settings.convert_succ]
    exact S.step mode fun s d _ => ih s d

/-- The order of outcomes on larger and larger budgets. -/
def approx (σ : Settings) : Simulation σ σ where
  Rel := Approx
  done _ := .refl _
  failed _ _ := .refl _
  unknown _ _ := .refl _
  sequel left _ _ h hf := h.sequel left hf
  wrap _ _ h := h.mapError _

end Simulation

namespace Settings

variable (σ : Settings)

theorem step_approx {f g : Value → Value → Outcome ConversionError Value}
    (hfg : ∀ s d, (f s d).Approx (g s d)) (src dst : Value) :
    (σ.step f src dst).Approx (σ.step g src dst) := by
  have related : (Simulation.approx σ).RelConversion (σ.step f src dst) (σ.step g src dst) :=
    (Simulation.approx σ).step rfl fun s d _ => (hfg s d).mapError Cause.conversion
  exact related.of_mapError fun _ _ same => Cause.conversion.inj same

theorem convert_approx_succ (budget : Nat) (src dst : Value) :
    ((Context.standard σ).convert budget src dst).Approx
      ((Context.standard σ).convert (budget + 1) src dst) := by
  induction budget generalizing src dst with
  | zero => exact Or.inl rfl
  | succ budget ih =>
    rw [convert_succ, convert_succ]
    exact σ.step_approx ih src dst

/-- **A larger budget changes no outcome.** -/
theorem convert_approx {budget larger : Nat} (h : budget ≤ larger) (src dst : Value) :
    ((Context.standard σ).convert budget src dst).Approx
      ((Context.standard σ).convert larger src dst) := by
  induction h with
  | refl => exact .refl _
  | step _ ih => exact ih.trans (σ.convert_approx_succ _ src dst)

end Settings

end Recast
