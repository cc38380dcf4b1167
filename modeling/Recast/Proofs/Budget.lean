import Recast.Proofs.Discipline

/-!
The budget is enough. A conversion by the standard recipes descends in the source, or on the way of
pointers ahead in the destination, and no conversion makes such a way longer than those it was
given. So `Settings.convert_ne_exhausted`: the budget of `Context.run` is never spent, and
`Settings.convert_eq` unfolds a conversion into one level with the conversion itself nested in it,
without a budget.
-/

namespace Recast

open Outcome

theorem Ty.way_le_height (t : Ty) : t.way ≤ t.height := by
  induction t using Ty.partsInduction with
  | step t ih =>
    cases t with
    | pointer pointee =>
      have := ih pointee (List.mem_singleton_self pointee)
      simpa [way, height] using this
    | _ => simp [way]

theorem Value.way_le_height (v : Value) : v.way ≤ v.height := by
  induction v using Value.partsInduction with
  | step v ih =>
    cases v with
    | pointer pointee target =>
      have target_le := ih target (List.mem_singleton_self target)
      have pointee_le := Ty.way_le_height pointee
      simp only [way, height]
      omega
    | nilPointer pointee =>
      have := Ty.way_le_height pointee
      simpa [way, height] using this
    | _ => simp [way]

mutual

theorem Value.height_type_le : ∀ v : Value, v.type.height ≤ v.height
  | .nil | .scalar _ => by simp [Value.type, Ty.height]
  | .map .. | .seq .. | .pointer .. | .nilPointer _ => by
    simp only [Value.type, Ty.height, Value.height]; omega
  | .struct _ fields => by
    have := Value.heightFields_typeFields_le fields
    simp only [Value.type, Ty.height, Value.height]; omega

theorem Value.heightFields_typeFields_le :
    ∀ fields : Fields, Ty.heightFields (Value.typeFields fields) ≤ Value.heightFields fields
  | [] => by simp [Value.typeFields, Ty.heightFields]
  | (_, v) :: fields => by
    have head := Value.height_type_le v
    have tail := Value.heightFields_typeFields_le fields
    simp only [Value.typeFields, Ty.heightFields, Value.heightFields]; omega

end

/-! ## Narrow values -/

/-- Nowhere do more than `m` pointers lie ahead. -/
def Ty.Narrow (m : Nat) (t : Ty) : Prop := t.Everywhere fun u => u.way ≤ m

@[inherit_doc Ty.Narrow]
def Value.Narrow (m : Nat) (v : Value) : Prop :=
  v.Everywhere fun w => w.way ≤ m ∧ w.type.Narrow m

theorem Ty.Narrow.zero {m : Nat} {t : Ty} (h : t.Narrow m) : t.zero.Narrow m := by
  refine Value.Everywhere.zero h fun u hu => ⟨?_, ?_⟩
  · exact Nat.le_trans (Ty.way_zero u) hu.here
  · rwa [Ty.type_zero]

theorem Value.Narrow.type {m : Nat} {v : Value} (h : v.Narrow m) : v.type.Narrow m := h.here.2

namespace Narrow

variable {m : Nat}

theorem of_ty_height_le {t : Ty} (h : t.height ≤ m) : t.Narrow m := by
  induction t using Ty.partsInduction with
  | step t ih =>
    refine .intro (Nat.le_trans (Ty.way_le_height t) h) fun u hu => ih u hu ?_
    have := Ty.height_lt_of_mem_parts hu
    omega

theorem of_height_le {v : Value} (h : v.height ≤ m) : v.Narrow m := by
  induction v using Value.partsInduction with
  | step v ih =>
    have type_le := Value.height_type_le v
    have way_le : v.way ≤ m := Nat.le_trans (Value.way_le_height v) h
    refine .intro ⟨way_le, of_ty_height_le (by omega)⟩ fun c hc => ?_
    have := Value.height_lt_of_mem_parts hc
    exact ih c hc (by omega)

theorem scalar (s : Scalar) : (Value.scalar s).Narrow m :=
  of_height_le (by simp [Value.height])

theorem ofParts {v : Value} (hw : v.way = 0) (ht : ∀ u ∈ v.type.parts, u.Narrow m)
    (hp : ∀ c ∈ v.parts, c.Narrow m) : v.Narrow m := by
  have typeWay := Value.way_type v
  exact .intro ⟨by omega, .intro (by omega) ht⟩ hp

end Narrow

/-- A slot with at most `j ≤ m` pointers ahead, and narrow throughout. -/
structure NarrowSlot (m j : Nat) (v : Value) : Prop where
  sort_le : j ≤ m
  way_le : v.way ≤ j
  narrow : v.Narrow m

namespace NarrowSlot

variable {m i : Nat}

theorem top {v : Value} (h : v.Narrow m) : NarrowSlot m m v := ⟨Nat.le_refl m, h.here.1, h⟩

theorem untyped {s : Value} (hs : s.Narrow m) (ho : i = m ∨ s.isPointer = false)
    (h : NarrowSlot m i .nil) : NarrowSlot m i s := by
  rcases ho with rfl | plain
  · exact top hs
  · refine ⟨h.sort_le, ?_, hs⟩
    have straight : s.way = 0 := by
      cases s <;> first | rfl | cases plain
    omega

theorem reset {v : Value} (h : NarrowSlot m i v) : NarrowSlot m i v.reset := by
  refine ⟨h.sort_le, ?_, h.narrow.type.zero⟩
  exact Nat.le_trans (Nat.le_trans (Ty.way_zero _) (Value.way_type v)) h.way_le

theorem map {key value : Ty} {old : Entries} (h : NarrowSlot m i (.map key value old)) :
    ∃ k v, k = m ∧ v = m ∧ NarrowSlot m k key.zero ∧ NarrowSlot m v value.zero ∧
      (∀ e ∈ old, NarrowSlot m v e.2) ∧
      ∀ entries, (∀ e ∈ entries, NarrowSlot m k e.1 ∧ NarrowSlot m v e.2) →
        NarrowSlot m i (.map key value entries) := by
  have hkey : key.Narrow m := h.narrow.type.part (by simp [Value.type, Ty.parts])
  have hvalue : value.Narrow m := h.narrow.type.part (by simp [Value.type, Ty.parts])
  refine ⟨m, m, rfl, rfl, top hkey.zero, top hvalue.zero, ?_, ?_⟩
  · intro e he
    exact top (h.narrow.part (Value.mem_parts_map.2 ⟨e, he, Or.inr rfl⟩))
  · intro entries hentries
    refine ⟨h.sort_le, Nat.zero_le i, Narrow.ofParts rfl ?_ ?_⟩
    · simp only [Value.type, Ty.parts, List.mem_cons, List.not_mem_nil, or_false]
      rintro u (rfl | rfl)
      · exact hkey
      · exact hvalue
    · intro c hc
      obtain ⟨e, he, rfl | rfl⟩ := Value.mem_parts_map.1 hc
      · exact (hentries e he).1.narrow
      · exact (hentries e he).2.narrow

theorem struct {name : String} {old : Fields} (h : NarrowSlot m i (.struct name old)) :
    ∃ sorts, (∀ j ∈ sorts, j = m) ∧ Fields.Sorted (NarrowSlot m) sorts (old.map (·.1)) old ∧
      ∀ fields, Fields.Sorted (NarrowSlot m) sorts (old.map (·.1)) fields →
        NarrowSlot m i (.struct name fields) := by
  refine ⟨old.map fun _ => m, by simp, ⟨rfl, ?_⟩, ?_⟩
  · rw [List.forall₂_map_right_iff, List.forall₂_same]
    intro f hf
    exact top (h.narrow.part (List.mem_map_of_mem hf))
  · intro fields hfields
    have held : ∀ f ∈ fields, f.2.Narrow m := by
      intro f hf
      obtain ⟨j, -, hj⟩ := hfields.exists_of_mem hf
      exact hj.narrow
    refine ⟨h.sort_le, Nat.zero_le i, Narrow.ofParts rfl ?_ ?_⟩
    · intro u hu
      simp only [Value.type, Ty.parts, Value.typeFields_eq_map, List.map_map, List.mem_map] at hu
      obtain ⟨f, hf, rfl⟩ := hu
      exact (held f hf).type
    · intro c hc
      obtain ⟨f, hf, rfl⟩ := List.mem_map.1 hc
      exact held f hf

theorem seq {item : Ty} {length : Option Nat} {old : List Value}
    (h : NarrowSlot m i (.seq item length old)) :
    ∃ j, j = m ∧ NarrowSlot m j item.zero ∧ (∀ v ∈ old, NarrowSlot m j v) ∧
      ∀ items, (∀ v ∈ items, NarrowSlot m j v) →
        (∀ n, length = some n → old.length = n → items.length = n) →
          NarrowSlot m i (.seq item length items) := by
  have hitem : item.Narrow m := h.narrow.type.part (List.mem_singleton_self item)
  refine ⟨m, rfl, top hitem.zero, fun v hv => top (h.narrow.part hv), ?_⟩
  intro items hitems _
  refine ⟨h.sort_le, Nat.zero_le i, Narrow.ofParts rfl ?_ fun c hc => (hitems c hc).narrow⟩
  intro u hu
  rwa [List.mem_singleton.1 hu]

theorem around {pointee : Ty} {target : Value} (hp : pointee.way + 1 ≤ i) (hi : i ≤ m)
    (narrow : (Ty.pointer pointee).Narrow m) (h : NarrowSlot m (i - 1) target) :
    NarrowSlot m i (.pointer pointee target) := by
  have ahead := h.way_le
  have way_le : (Value.pointer pointee target).way ≤ i := by
    simp only [Value.way]
    omega
  refine ⟨hi, way_le, .intro ⟨by omega, narrow⟩ fun c hc => ?_⟩
  rw [List.mem_singleton.1 hc]
  exact h.narrow

theorem pointer {pointee : Ty} {target : Value} (h : NarrowSlot m i (.pointer pointee target)) :
    ∃ j, NarrowSlot m j target ∧
      ∀ target', NarrowSlot m j target' → NarrowSlot m i (.pointer pointee target') := by
  obtain ⟨hi, hw, narrow⟩ := h
  simp only [Value.way] at hw
  have part : target.Narrow m := narrow.part (List.mem_singleton_self target)
  refine ⟨i - 1, ⟨by omega, by omega, part⟩, fun target' h' => ?_⟩
  exact around (by omega) hi narrow.type h'

theorem nilPointer {pointee : Ty} (h : NarrowSlot m i (.nilPointer pointee)) :
    ∃ j, NarrowSlot m j pointee.zero ∧
      ∀ target, NarrowSlot m j target → NarrowSlot m i (.pointer pointee target) := by
  obtain ⟨hi, hw, narrow⟩ := h
  simp only [Value.way] at hw
  have hpointee : pointee.Narrow m := narrow.type.part (List.mem_singleton_self pointee)
  have zero_le := Ty.way_zero pointee
  refine ⟨i - 1, ⟨by omega, by omega, hpointee.zero⟩, fun target h' => ?_⟩
  exact around (by omega) hi narrow.type h'

end NarrowSlot

/-- The slots that are narrow within `m`, sorted by the pointers ahead. -/
def narrowness (m : Nat) : Discipline Nat where
  Source s := s.Narrow m
  Holds j v := NarrowSlot m j v
  Open j := j = m
  source_part h hc := h.part hc
  source_name name := Narrow.scalar (.string name)
  source_zero h := Ty.Narrow.zero (h.type.part (List.mem_singleton_self _))
  text := ⟨m, rfl, .top (Narrow.scalar _)⟩
  untyped hs ho h := h.untyped hs ho
  reset h := h.reset
  scalar h _ := ⟨h.sort_le, Nat.zero_le _, Narrow.scalar _⟩
  map h := h.map
  struct h := h.struct
  seq h := h.seq
  pointer h := h.pointer
  nilPointer h := h.nilPointer

/-! ## Conversion without a budget -/

namespace Settings

variable (σ : Settings)

theorem convert_ne_exhausted {n : Nat} {src dst : Value} (h : budget src dst ≤ n) :
    (Context.standard σ).convert n src dst ≠ exhausted := by
  obtain ⟨m, hm⟩ : ∃ m, m = max src.height dst.height := ⟨_, rfl⟩
  have narrowSource : src.Narrow m := Narrow.of_height_le (by omega)
  have narrowTarget : dst.Narrow m := Narrow.of_height_le (by omega)
  have bounded : ∀ i v, (narrowness m).Holds i v → v.way ≤ m := fun _ _ h => h.narrow.here.1
  have enough : src.height * (m + 1) + dst.way < n := by
    have := narrowTarget.here.1
    rw [budget, ← hm, Nat.succ_mul] at h
    omega
  have kept : ((Context.standard σ).convert n src dst).Ensures False ((narrowness m).Holds m) :=
    (narrowness m).convert_ensures (Or.inr bounded) n narrowSource (Or.inl rfl)
      (NarrowSlot.top narrowTarget) (Or.inr enough)
  exact kept.ne_exhausted

/-- A conversion by the standard recipes alone. -/
def convert (src dst : Value) : Outcome ConversionError Value :=
  (Context.standard σ).run src dst

theorem convert_eq_of_budget_le {n : Nat} {src dst : Value} (h : budget src dst ≤ n) :
    (Context.standard σ).convert n src dst = σ.convert src dst := by
  have least := σ.convert_ne_exhausted (Nat.le_refl (budget src dst))
  have here := (σ.convert_approx h src dst).eq_of_ne least
  have granted := (σ.convert_approx (Nat.le_add_right _ extraBudget) src dst).eq_of_ne least
  exact here.symm.trans granted

theorem convert_ends (src dst : Value) : σ.convert src dst ≠ exhausted := by
  rw [← σ.convert_eq_of_budget_le (Nat.le_refl (budget src dst))]
  exact σ.convert_ne_exhausted (Nat.le_refl _)

theorem approx_convert (n : Nat) (src dst : Value) :
    ((Context.standard σ).convert n src dst).Approx (σ.convert src dst) := by
  rcases Nat.le_total n (budget src dst) with h | h
  · have grown := σ.convert_approx h src dst
    rwa [σ.convert_eq_of_budget_le (Nat.le_refl _)] at grown
  · rw [σ.convert_eq_of_budget_le h]
    exact .refl _

/-- **A conversion is one level with conversions nested in it.** -/
theorem convert_eq (src dst : Value) : σ.convert src dst = σ.step σ.convert src dst := by
  have here := σ.convert_eq_of_budget_le (Nat.le_succ (budget src dst))
  rw [convert_succ] at here
  have unfolded := σ.step_approx (σ.approx_convert (budget src dst)) src dst
  rw [here] at unfolded
  exact unfolded.eq_of_ne (σ.convert_ends src dst)

end Settings

/-! ## Calls that use the standard recipes alone -/

/-- Neither the converter nor the call has recipes of its own. -/
structure Converter.Standard (c : Converter) (options : CallOptions) : Prop where
  recipes : c.recipes = []
  callRecipes : options.recipes = []

/-- The settings that a call has. -/
def Converter.settingsOf (c : Converter) (options : CallOptions) : Settings :=
  (c.context options).settings

namespace Converter.Standard

variable {c : Converter} {options : CallOptions} (h : c.Standard options)
include h

theorem context_eq : c.context options = Context.standard (c.settingsOf options) := by
  obtain ⟨_, _⟩ := c
  obtain ⟨hc, ho⟩ := h
  subst hc
  simp [context, registry, Context.standard, settingsOf, ho]

theorem convertWith_eq (src dst : Value) :
    c.convertWith options src dst = ((c.settingsOf options).convert src dst).rollback dst := by
  rw [convertWith, h.context_eq]
  rfl

theorem convertWith_ends (src dst : Value) : c.convertWith options src dst ≠ .exhausted := by
  rw [h.convertWith_eq]
  have ends := (c.settingsOf options).convert_ends src dst
  cases outcome : (c.settingsOf options).convert src dst with
  | exhausted => exact absurd outcome ends
  | _ => simp [rollback, useFor]

theorem convertWith_eq_done {src dst dst' : Value} :
    c.convertWith options src dst = .done dst' ↔
      (c.settingsOf options).convert src dst = .done dst' := by
  rw [← done?_eq_some, h.convertWith_eq, done?_rollback, done?_eq_some]

end Converter.Standard

end Recast
