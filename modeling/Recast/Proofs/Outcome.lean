import Recast.Conversion.Outcome

/-!
How outcomes compare. `Approx` orders them by how far the budget went, and every way of putting
steps together respects that order. `Ensures` says what a step leaves in its slot when it is done,
with a condition for the case that the budget was spent. `done?` forgets why a step failed.
-/

namespace Recast.Outcome

variable {ε ε' α β : Type}

/-- The slot of a step that is done. -/
def done? : Outcome ε α → Option α
  | done slot => some slot
  | failed .. | exhausted => none

theorem done?_eq_some {o : Outcome ε α} {slot : α} : o.done? = some slot ↔ o = done slot := by
  cases o <;> simp [done?]

theorem done?_eq_none {o : Outcome ε α} (ends : o ≠ exhausted) :
    o.done? = none ↔ ∃ error slot, o = failed error slot := by
  cases o with
  | exhausted => exact absurd rfl ends
  | _ => simp [done?]

theorem done?_map (f : α → β) (o : Outcome ε α) : (o.map f).done? = o.done?.map f := by
  cases o <;> rfl

theorem done?_mapError (f : ε → ε') (o : Outcome ε α) : (o.mapError f).done? = o.done? := by
  cases o <;> rfl

theorem done?_rollback (o : Outcome ε α) (kept : α) : (o.rollback kept).done? = o.done? := by
  cases o <;> rfl

theorem map_eq_done {f : α → β} {o : Outcome ε α} {slot : β} :
    o.map f = done slot ↔ ∃ x, o = done x ∧ f x = slot := by
  cases o <;> simp [map]

theorem mapError_eq_done {f : ε → ε'} {o : Outcome ε α} {slot : α} :
    o.mapError f = done slot ↔ o = done slot := by
  cases o <;> simp [mapError]

theorem bind_eq_done {o : Outcome ε α} {f : α → Outcome ε α} {slot : α} :
    o.bind f = done slot ↔ ∃ x, o = done x ∧ f x = done slot := by
  cases o <;> simp [bind]

theorem useFor_eq_done {o : Outcome ε β} {kept : α} {f : β → Outcome ε α} {slot : α} :
    o.useFor kept f = done slot ↔ ∃ x, o = done x ∧ f x = done slot := by
  cases o <;> simp [useFor]

theorem map_eq_failed {f : α → β} {o : Outcome ε α} {error : ε} {slot : β} :
    o.map f = failed error slot ↔ ∃ left, o = failed error left ∧ f left = slot := by
  cases o with
  | done | exhausted => simp [map]
  | failed error' left =>
    simp only [map, Outcome.failed.injEq]
    constructor
    · rintro ⟨rfl, rfl⟩
      exact ⟨left, ⟨rfl, rfl⟩, rfl⟩
    · rintro ⟨_, ⟨rfl, rfl⟩, rfl⟩
      exact ⟨rfl, rfl⟩

theorem mapError_eq_failed {f : ε → ε'} {o : Outcome ε α} {error : ε'} {slot : α} :
    o.mapError f = failed error slot ↔ ∃ cause, o = failed cause slot ∧ f cause = error := by
  cases o with
  | done | exhausted => simp [mapError]
  | failed cause left =>
    simp only [mapError, Outcome.failed.injEq]
    constructor
    · rintro ⟨rfl, rfl⟩
      exact ⟨cause, ⟨rfl, rfl⟩, rfl⟩
    · rintro ⟨_, ⟨rfl, rfl⟩, rfl⟩
      exact ⟨rfl, rfl⟩

theorem ofExcept_eq_done {kept slot : α} {e : Except ε α} :
    ofExcept kept e = done slot ↔ e = .ok slot := by
  cases e <;> simp [ofExcept]

theorem mapError_mapError {ε'' : Type} (f : ε → ε') (g : ε' → ε'') (o : Outcome ε α) :
    (o.mapError f).mapError g = o.mapError fun error => g (f error) := by
  cases o <;> rfl

theorem map_mapError (f : ε → ε') (g : α → β) (o : Outcome ε α) :
    (o.mapError f).map g = (o.map g).mapError f := by
  cases o <;> rfl

theorem mapError_injective {f : ε → ε'} (inj : ∀ a b, f a = f b → a = b) {o p : Outcome ε α}
    (h : o.mapError f = p.mapError f) : o = p := by
  cases o <;> cases p <;> simp only [mapError, Outcome.done.injEq, Outcome.failed.injEq,
    reduceCtorEq] at h ⊢
  · exact h
  · exact ⟨inj _ _ h.1, h.2⟩

theorem mapError_ne_exhausted {f : ε → ε'} {o : Outcome ε α} (h : o ≠ exhausted) :
    o.mapError f ≠ exhausted := by
  cases o with
  | exhausted => exact absurd rfl h
  | _ => simp [mapError]

/-! ## One step after another -/

/-- Goes on from a step that is done. When it fails, `left` says what remains of its slot. -/
def sequel (left : β → α) (next : β → Outcome ε α) : Outcome ε β → Outcome ε α
  | done slot => next slot
  | failed error slot => failed error (left slot)
  | exhausted => exhausted

theorem map_eq_sequel (f : α → β) (o : Outcome ε α) : o.map f = o.sequel f fun x => done (f x) := by
  cases o <;> rfl

theorem bind_eq_sequel (o : Outcome ε α) (f : α → Outcome ε α) : o.bind f = o.sequel id f := by
  cases o <;> rfl

theorem useFor_eq_sequel (o : Outcome ε β) (kept : α) (f : β → Outcome ε α) :
    o.useFor kept f = o.sequel (fun _ => kept) f := by
  cases o <;> rfl

/-! ## Outcomes on a larger budget -/

/-- The same outcome, unless the budget was spent before there was one. -/
def Approx (o p : Outcome ε α) : Prop := o = exhausted ∨ o = p

namespace Approx

theorem refl (o : Outcome ε α) : o.Approx o := Or.inr rfl

theorem trans {o p q : Outcome ε α} (h : o.Approx p) (h' : p.Approx q) : o.Approx q := by
  rcases h with h | rfl
  · exact Or.inl h
  · exact h'

theorem eq_of_ne {o p : Outcome ε α} (h : o.Approx p) (hne : o ≠ exhausted) : o = p :=
  h.resolve_left hne

theorem mapError {o p : Outcome ε α} (h : o.Approx p) (f : ε → ε') :
    (o.mapError f).Approx (p.mapError f) := by
  rcases h with rfl | rfl
  · exact Or.inl rfl
  · exact refl _

theorem of_mapError {o p : Outcome ε α} {f : ε → ε'} (h : (o.mapError f).Approx (p.mapError f))
    (inj : ∀ a b, f a = f b → a = b) : o.Approx p := by
  rcases h with h | h
  · cases o <;> cases h
    exact Or.inl rfl
  · exact Or.inr (mapError_injective inj h)

theorem sequel {o p : Outcome ε β} {f g : β → Outcome ε α} (h : o.Approx p) (left : β → α)
    (hf : ∀ x, (f x).Approx (g x)) : (o.sequel left f).Approx (p.sequel left g) := by
  rcases h with rfl | rfl
  · exact Or.inl rfl
  · cases o with
    | done slot => exact hf slot
    | failed | exhausted => exact refl _

end Approx

/-! ## What a step leaves in its slot -/

/-- A step that is done leaves a slot that `holds`, and spends its budget only if `spent`. -/
def Ensures (spent : Prop) (holds : α → Prop) : Outcome ε α → Prop
  | done slot => holds slot
  | failed .. => True
  | exhausted => spent

namespace Ensures

variable {spent : Prop} {holds holds' : α → Prop} {o : Outcome ε α}

theorem mono (h : o.Ensures spent holds) (hh : ∀ x, holds x → holds' x) :
    o.Ensures spent holds' := by
  cases o with
  | done slot => exact hh slot h
  | failed => trivial
  | exhausted => exact h

theorem of_done (h : o.Ensures spent holds) {slot : α} (ho : o = done slot) : holds slot := by
  subst ho
  exact h

theorem ne_exhausted (h : o.Ensures False holds) : o ≠ exhausted := by
  rintro rfl
  exact h

theorem map {f : α → β} {holds : β → Prop} (h : o.Ensures spent fun x => holds (f x)) :
    (o.map f).Ensures spent holds := by
  cases o <;> exact h

theorem mapError (h : o.Ensures spent holds) (f : ε → ε') :
    (o.mapError f).Ensures spent holds := by
  cases o <;> exact h

theorem bind {f : α → Outcome ε α} (h : o.Ensures spent holds)
    (hf : ∀ x, holds x → (f x).Ensures spent holds') : (o.bind f).Ensures spent holds' := by
  cases o with
  | done slot => exact hf slot h
  | failed => trivial
  | exhausted => exact h

theorem useFor {f : α → Outcome ε β} {kept : β} {after : β → Prop} (h : o.Ensures spent holds)
    (hf : ∀ x, holds x → (f x).Ensures spent after) : (o.useFor kept f).Ensures spent after := by
  cases o with
  | done slot => exact hf slot h
  | failed => trivial
  | exhausted => exact h

theorem ofExcept {kept : α} {e : Except ε α} (h : ∀ x, e = .ok x → holds x) :
    (ofExcept kept e).Ensures spent holds := by
  cases e with
  | ok slot => exact h slot rfl
  | error => trivial

theorem foldSteps {step : β → α → Outcome ε β} {holds : β → Prop} {xs : List α}
    (hstep : ∀ x ∈ xs, ∀ slot, holds slot → (step slot x).Ensures spent holds) {slot : β}
    (h : holds slot) : (foldSteps step slot xs).Ensures spent holds := by
  induction xs generalizing slot with
  | nil => exact h
  | cons x xs ih =>
    have head := hstep x List.mem_cons_self slot h
    exact head.bind fun slot h => ih (fun y hy => hstep y (List.mem_cons_of_mem x hy)) h

end Ensures

/-! ## What a failure leaves behind -/

/-- A step that fails leaves a slot that is `left`. -/
def Leaves (left : α → Prop) : Outcome ε α → Prop
  | failed _ slot => left slot
  | done _ | exhausted => True

namespace Leaves

variable {left : α → Prop} {o : Outcome ε α}

theorem mono {left' : α → Prop} (h : o.Leaves left) (hl : ∀ x, left x → left' x) :
    o.Leaves left' := by
  cases o with
  | failed error slot => exact hl slot h
  | _ => trivial

theorem map {f : α → β} {left : β → Prop} (h : o.Leaves fun x => left (f x)) :
    (o.map f).Leaves left := by
  cases o <;> exact h

theorem mapError (h : o.Leaves left) (f : ε → ε') : (o.mapError f).Leaves left := by
  cases o <;> exact h

theorem useFor {f : α → Outcome ε β} {kept : β} {left : β → Prop} (h : left kept)
    (hf : ∀ x, o = done x → (f x).Leaves left) : (o.useFor kept f).Leaves left := by
  cases o with
  | done slot => exact hf slot rfl
  | failed => exact h
  | exhausted => trivial

theorem ofExcept {kept : α} (h : left kept) (e : Except ε α) : (ofExcept kept e).Leaves left := by
  cases e with
  | ok => trivial
  | error => exact h

/-- Each step starts from what those before it have ensured. -/
theorem foldSteps {step : β → α → Outcome ε β} {holds left : β → Prop} {xs : List α}
    (hstep : ∀ x ∈ xs, ∀ slot, holds slot →
      (step slot x).Ensures True holds ∧ (step slot x).Leaves left) {slot : β}
    (h : holds slot) : (foldSteps step slot xs).Leaves left := by
  induction xs generalizing slot with
  | nil => trivial
  | cons x xs ih =>
    obtain ⟨ensured, leaves⟩ := hstep x List.mem_cons_self slot h
    rw [Outcome.foldSteps]
    cases first : step slot x with
    | done next =>
      have held := ensured.of_done first
      exact ih (fun y hy => hstep y (List.mem_cons_of_mem x hy)) held
    | failed error slot => rwa [first] at leaves
    | exhausted => trivial

end Leaves

end Recast.Outcome
