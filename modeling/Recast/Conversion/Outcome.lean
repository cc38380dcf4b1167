import Recast.Value.Basic

/-!
The outcome of writing into a slot. A failure says what the slot holds afterwards, since a step that
fails may have written part of its result.
-/

namespace Recast

inductive Outcome (ε α : Type) where
  | done (slot : α)
  | failed (error : ε) (slot : α)
  /-- The nesting budget was spent before the step ended. -/
  | exhausted

namespace Outcome

variable {ε ε' α β : Type}

/-- The slot seen as part of a larger one. -/
def map (f : α → β) : Outcome ε α → Outcome ε β
  | done slot => done (f slot)
  | failed error slot => failed error (f slot)
  | exhausted => exhausted

def mapError (f : ε → ε') : Outcome ε α → Outcome ε' α
  | done slot => done slot
  | failed error slot => failed (f error) slot
  | exhausted => exhausted

/-- Goes on with the slot of a step that is done. -/
def bind (o : Outcome ε α) (f : α → Outcome ε α) : Outcome ε α :=
  match o with
  | done slot => f slot
  | failed error slot => failed error slot
  | exhausted => exhausted

/-- Uses a slot that nothing else sees. When its step fails, `kept` is what is left. -/
def useFor (o : Outcome ε β) (kept : α) (f : β → Outcome ε α) : Outcome ε α :=
  match o with
  | done slot => f slot
  | failed error _ => failed error kept
  | exhausted => exhausted

/-- A failure leaves the given slot instead. -/
def rollback (o : Outcome ε α) (kept : α) : Outcome ε α := o.useFor kept done

/-- Steps in a row, up to the first that fails. -/
def foldSteps (step : β → α → Outcome ε β) : β → List α → Outcome ε β
  | slot, [] => done slot
  | slot, x :: xs => (step slot x).bind fun slot => foldSteps step slot xs

/-- The result alone, if the step ended. -/
def result? : Outcome ε α → Option (Except ε α)
  | done slot => some (.ok slot)
  | failed error _ => some (.error error)
  | exhausted => none

theorem rollback_failed {o : Outcome ε α} {kept slot : α} {error : ε}
    (h : o.rollback kept = failed error slot) : slot = kept := by
  cases o <;> simp_all [rollback, useFor]

def ofExcept (kept : α) : Except ε α → Outcome ε α
  | .ok slot => done slot
  | .error error => failed error kept

end Outcome

/-- Writes what live pointers lead to. -/
def Value.writeElem {ε : Type} (write : Value → Outcome ε Value) : Value → Outcome ε Value
  | .pointer pointee target => (target.writeElem write).map (.pointer pointee)
  | v => write v

end Recast
