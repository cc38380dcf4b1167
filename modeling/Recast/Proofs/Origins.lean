import Recast.Proofs.Unfolding

/-!
Where failures come from. A step that nests conversions fails on its own account, or because of the
first of them that fails. `Accounts` says so, and that the step does not get past that conversion.
All ways of putting steps together keep to it, and with them the ways in which sequences, maps and
structs are filled.
-/

namespace Recast

open Outcome Recipe

/-- `g` does what `f` does, as far as `f` gets it done. -/
def Keeps (f g : Value → Value → Outcome ConversionError Value) : Prop :=
  ∀ s d slot, f s d = .done slot → g s d = .done slot

/-- The conversion of `s` into `d` fails, and the step does not get past it: as long as what is done
stays so, the step does not end if that conversion does not. -/
structure BlockedBy {ε α : Type} (f : Value → Value → Outcome ConversionError Value)
    (step : (Value → Value → Outcome ConversionError Value) → Outcome ε α) (s d : Value)
    (error : ConversionError) : Prop where
  fails : ∃ left, f s d = .failed error left
  stuck : ∀ g, Keeps f g → g s d = .exhausted → step g = .exhausted

/-- A step fails for a cause of its `own`, or it is blocked by a conversion and passes on its
failure. What it gets done depends on conversions that are done and on no others. -/
structure Accounts {α : Type} (f : Value → Value → Outcome ConversionError Value)
    (own : Cause → Prop)
    (step : (Value → Value → Outcome ConversionError Value) → Outcome Cause α) : Prop where
  done : ∀ {slot}, step f = .done slot → ∀ g, Keeps f g → step g = .done slot
  failed : ∀ {cause slot}, step f = .failed cause slot →
    own cause ∨ ∃ s d error, cause = .conversion error ∧ BlockedBy f step s d error

namespace Accounts

variable {f : Value → Value → Outcome ConversionError Value} {own : Cause → Prop}
  {α β γ : Type} {step : (Value → Value → Outcome ConversionError Value) → Outcome Cause α}

/-! ## Steps put together -/

theorem ofDone (slot : α) : Accounts f own fun _ => .done slot where
  done same _ _ := same
  failed failed := by cases failed

theorem ofFailed {cause : Cause} (slot : α) (h : own cause) :
    Accounts f own fun _ => .failed cause slot where
  done done := by cases done
  failed failed := by
    cases failed
    exact .inl h

theorem ofExcept {e : Except Cause α} (kept : α) (h : ∀ cause, e = .error cause → own cause) :
    Accounts f own fun _ => .ofExcept kept e := by
  cases e with
  | ok slot => exact ofDone slot
  | error cause => exact ofFailed kept (h cause rfl)

/-- A nested conversion is blocked by itself. -/
theorem nested (σ : Settings) (s d : Value) :
    Accounts f own fun g => Scope.nested ⟨σ, g⟩ s d where
  done {slot} done g keeps := by
    simp only [Scope.nested, mapError_eq_done] at done ⊢
    exact keeps s d slot done
  failed {cause slot} failed := by
    simp only [Scope.nested] at failed
    cases outcome : f s d with
    | done | exhausted => simp [outcome, mapError] at failed
    | failed error left =>
      simp only [outcome, mapError, Outcome.failed.injEq] at failed
      refine .inr ⟨s, d, error, failed.1.symm, ⟨left, outcome⟩, fun g _ spent => ?_⟩
      simp only [Scope.nested, spent, mapError]

theorem sequel {next : (Value → Value → Outcome ConversionError Value) → α → Outcome Cause β}
    (h : Accounts f own step) (left : α → β)
    (hnext : ∀ slot, step f = .done slot → Accounts f own fun g => next g slot) :
    Accounts f own fun g => (step g).sequel left (next g) where
  done {slot} done g keeps := by
    cases first : step f with
    | failed | exhausted => simp [first, Outcome.sequel] at done
    | done x =>
      simp only [first, Outcome.sequel] at done
      simp only [h.done first g keeps, Outcome.sequel]
      exact (hnext x first).done done g keeps
  failed {cause slot} failed := by
    cases first : step f with
    | exhausted => simp [first, Outcome.sequel] at failed
    | failed cause' slot' =>
      simp only [first, Outcome.sequel, Outcome.failed.injEq] at failed
      refine (failed.1 ▸ h.failed first).imp_right ?_
      rintro ⟨s, d, error, same, fails, stuck⟩
      refine ⟨s, d, error, same, fails, fun g keeps spent => ?_⟩
      simp only [stuck g keeps spent, Outcome.sequel]
    | done x =>
      -- What blocks the second step blocks both, since the first is done as before.
      simp only [first, Outcome.sequel] at failed
      refine ((hnext x first).failed failed).imp_right ?_
      rintro ⟨s, d, error, same, fails, stuck⟩
      refine ⟨s, d, error, same, fails, fun g keeps spent => ?_⟩
      simp only [h.done first g keeps, Outcome.sequel]
      exact stuck g keeps spent

theorem map (h : Accounts f own step) (into : α → β) :
    Accounts f own fun g => (step g).map into := by
  simp only [map_eq_sequel]
  exact h.sequel into fun slot _ => ofDone (into slot)

theorem bind {next : (Value → Value → Outcome ConversionError Value) → α → Outcome Cause α}
    (h : Accounts f own step)
    (hnext : ∀ slot, step f = .done slot → Accounts f own fun g => next g slot) :
    Accounts f own fun g => (step g).bind (next g) := by
  simp only [bind_eq_sequel]
  exact h.sequel id hnext

theorem useFor {next : (Value → Value → Outcome ConversionError Value) → α → Outcome Cause β}
    (h : Accounts f own step) (kept : β)
    (hnext : ∀ slot, step f = .done slot → Accounts f own fun g => next g slot) :
    Accounts f own fun g => (step g).useFor kept (next g) := by
  simp only [useFor_eq_sequel]
  exact h.sequel (fun _ => kept) hnext

/-- Steps in a row, each on a slot that `holds`. -/
theorem foldSteps
    {step : (Value → Value → Outcome ConversionError Value) → β → α → Outcome Cause β}
    (holds : β → Prop) {xs : List α}
    (hstep : ∀ x ∈ xs, ∀ slot, holds slot → Accounts f own fun g => step g slot x)
    (kept : ∀ x ∈ xs, ∀ slot slot', holds slot → step f slot x = .done slot' → holds slot')
    {slot : β} (h : holds slot) : Accounts f own fun g => foldSteps (step g) slot xs := by
  induction xs generalizing slot with
  | nil => exact ofDone slot
  | cons x xs ih =>
    obtain ⟨head, tail⟩ := List.forall_mem_cons.1 hstep
    obtain ⟨keptHead, keptTail⟩ := List.forall_mem_cons.1 kept
    refine bind (head slot h) fun next done => ?_
    exact ih tail keptTail (keptHead slot next h done)

theorem writeElem
    {write : (Value → Value → Outcome ConversionError Value) → Value → Outcome Cause Value}
    {v : Value} (h : Accounts f own fun g => write g v.elem) :
    Accounts f own fun g => v.writeElem (write g) := by
  fun_induction Value.elem v with
  | case1 pointee target ih => exact (ih h).map (Value.pointer pointee)
  | case2 v plain =>
    simp only [Value.writeElem.eq_2 _ _ plain]
    exact h

/-! ## Filling lists of slots -/

variable {σ : Settings}

theorem fillItems (item : Ty) (old source : List Value) :
    Accounts f own fun g => fillItems (Scope.nested ⟨σ, g⟩) item old source := by
  induction source generalizing old with
  | nil =>
    simp only [Recipe.fillItems]
    exact ofDone []
  | cons v source ih =>
    cases old with
    | nil =>
      simp only [fillItems_nil_cons]
      exact (nested σ v _).useFor _ fun slot _ => (ih []).sequel _ fun slots _ => ofDone _
    | cons o old =>
      simp only [fillItems_cons_cons]
      exact (nested σ v o).useFor _ fun slot _ => (ih old).sequel _ fun slots _ => ofDone _

theorem fillSequence {item : Ty} {length : Option Nat} {old source : List Value}
    (tooMany : ∀ n, length = some n → n < source.length → own (.tooMany source.length n item)) :
    Accounts f own fun g => fillSequence (Scope.nested ⟨σ, g⟩) item length old source := by
  cases length with
  | none => exact fillItems item old source
  | some n =>
    simp only [fillSequence_some]
    split
    · next less => exact ofFailed old (tooMany n rfl less)
    · exact (fillItems item old source).bind fun items _ => ofDone _

theorem rebuild {keyType valueType : Ty} {previous? : Value → Option Value} (r : Rebuilt)
    (pairs : Entries) : Accounts f own fun g =>
      rebuild (Scope.nested ⟨σ, g⟩) keyType valueType previous? r pairs := by
  induction pairs generalizing r with
  | nil => exact ofDone r
  | cons p pairs ih =>
    exact (nested σ p.1 _).useFor r fun key _ => (nested σ p.2 _).useFor r fun v _ => ih _

theorem fillMap (keyType valueType : Ty) (old pairs : Entries) :
    Accounts f own fun g => fillMap (Scope.nested ⟨σ, g⟩) keyType valueType old pairs :=
  (rebuild _ pairs).useFor old fun r _ => ofDone r.entries

theorem assignField {skip : Bool} {struct name : String} {v : Value} {fields : Fields}
    (unknown : skip = false → (∀ field ∈ fields, Text.foldEq field.1 name = false) →
      own (.conversion (.unknownField name struct))) :
    Accounts f own fun g => assignField (Scope.nested ⟨σ, g⟩) skip struct name v fields := by
  induction fields with
  | nil =>
    simp only [Recipe.assignField]
    split
    · exact ofDone []
    · next strict => exact ofFailed [] (unknown (by simpa using strict) (by simp))
  | cons field fields ih =>
    simp only [Recipe.assignField]
    split
    · exact (nested σ v field.2).map _
    · next differs =>
      refine (ih fun strict others => unknown strict ?_).map _
      exact List.forall_mem_cons.2 ⟨by simpa using differs, others⟩

/-! ## What live pointers lead to -/

theorem fillTarget {key value : Ty} {old pairs : Entries} {dst : Value}
    (target : dst.elem = .map key value old) :
    Accounts f own fun g => fillTarget ⟨σ, g⟩ pairs dst := by
  refine writeElem ?_
  simp only [target]
  exact (fillMap key value old pairs).map _

theorem writeFields {struct : String} {fields : Fields} {dst : Value}
    (target : dst.elem = .struct struct fields)
    {write : (Value → Value → Outcome ConversionError Value) → String → Fields →
      Outcome Cause Fields}
    (h : Accounts f own fun g => write g struct fields) :
    Accounts f own fun g => writeFields (write g) dst := by
  refine writeElem ?_
  simp only [target]
  exact h.map _

end Accounts

end Recast
