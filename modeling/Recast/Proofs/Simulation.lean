import Recast.Proofs.Choice
import Recast.Proofs.Outcome
import Recast.Proofs.Parts

/-!
Two runs side by side. A `Simulation` is a relation between outcomes that is kept wherever steps are
put together, and so by each standard action: `Simulation.chosen` says that an action run twice, on
nested conversions that are related, has related outcomes. Nested conversions have lower sources
than the action was given.
-/

namespace Recast

namespace Except

variable {ε ε' α β : Type} {error : ε}

theorem map_eq_error {f : α → β} {e : Except ε α} (h : e.map f = .error error) :
    e = .error error := by
  cases e <;> cases h
  rfl

theorem mapError_eq_error {f : ε' → ε} {e : Except ε' α} (h : e.mapError f = .error error) :
    ∃ cause, e = .error cause ∧ f cause = error := by
  cases e <;> cases h
  exact ⟨_, rfl, rfl⟩

theorem mapM_eq_error {f : α → Except ε β} {xs : List α} (h : xs.mapM f = .error error) :
    ∃ x ∈ xs, f x = .error error := by
  induction xs with
  | nil => cases h
  | cons x xs ih =>
    rw [List.mapM_cons] at h
    cases head : f x with
    | error found =>
      rw [head] at h
      cases h
      exact ⟨x, List.mem_cons_self, head⟩
    | ok y =>
      cases tail : xs.mapM f with
      | error found =>
        rw [head, tail] at h
        cases h
        obtain ⟨x', member, failed⟩ := ih tail
        exact ⟨x', List.mem_cons_of_mem x member, failed⟩
      | ok ys =>
        rw [head, tail] at h
        cases h

end Except

/-- The cause lies in a name without a field. -/
def Cause.isUnknownField : Cause → Bool
  | .conversion error => error.isUnknownField
  | _ => false

/-- What becomes of a name without a field. -/
def Recipe.unknownName (skip : Bool) (struct name : String) : Outcome Cause Fields :=
  if skip then .done [] else .failed (.conversion (.unknownField name struct)) []

open Outcome Recipe

/-! ## Actions as steps put together -/

namespace Recipe

variable {nested : Value → Value → Outcome Cause Value} {item : Ty}

theorem fillItems_nil_cons (v : Value) (source : List Value) :
    fillItems nested item [] (v :: source) =
      (nested v item.zero).useFor [] fun slot =>
        (fillItems nested item [] source).sequel (fun _ => []) fun slots =>
          .done (slot :: slots) := by
  simp only [fillItems]
  congr 1
  funext slot
  cases fillItems nested item [] source <;> rfl

theorem fillItems_cons_cons (old v : Value) (olds source : List Value) :
    fillItems nested item (old :: olds) (v :: source) =
      (nested v old).useFor (.nil :: olds) fun slot =>
        (fillItems nested item olds source).sequel (.nil :: ·) fun slots =>
          .done (slot :: slots) := by
  simp only [fillItems]
  congr 1
  funext slot
  cases fillItems nested item olds source <;> rfl

theorem fillSequence_some (n : Nat) (old source : List Value) :
    fillSequence nested item (some n) old source =
      if n < source.length then .failed (.tooMany source.length n item) old
      else (fillItems nested item old source).bind fun items =>
        .done (padTo n item.zero (items ++ (old.drop source.length).take n)) := by
  simp only [fillSequence]
  cases fillItems nested item old source <;> rfl

theorem byte_eq_error {v : Value} {cause : Cause} (h : byte v = .error cause) :
    cause.isUnknownField = false := by
  unfold byte at h
  split at h <;> cases h
  rfl

theorem rune_eq_error {v : Value} {cause : Cause} (h : rune v = .error cause) :
    cause.isUnknownField = false := by
  unfold rune at h
  split at h <;> cases h
  rfl

end Recipe

/-! ## Simulations -/

/-- A relation between the outcomes of two runs, under settings of their own. -/
structure Simulation (σ σ' : Settings) where
  Rel : {α : Type} → Outcome Cause α → Outcome Cause α → Prop
  done : ∀ {α : Type} (slot : α), Rel (.done slot) (.done slot)
  failed : ∀ {α : Type} {cause : Cause} (slot : α), cause.isUnknownField = false →
    Rel (.failed cause slot) (.failed cause slot)
  unknown : ∀ struct name,
    Rel (unknownName σ.skipUnknownFields struct name) (unknownName σ'.skipUnknownFields struct name)
  sequel : ∀ {α β : Type} {o p : Outcome Cause β} (left : β → α) {f g : β → Outcome Cause α},
    Rel o p → (∀ slot, Rel (f slot) (g slot)) → Rel (o.sequel left f) (p.sequel left g)
  /-- A failure of a nested conversion is related as the one that it was caused by. -/
  wrap : ∀ {α : Type} {o p : Outcome Cause α} (source target : Ty), Rel o p →
    Rel (o.mapError fun cause => .conversion (.failed source target cause))
      (p.mapError fun cause => .conversion (.failed source target cause))

namespace Simulation

variable {σ σ' : Settings} (S : Simulation σ σ') {α β : Type}

/-! ## Steps put together -/

theorem map {o p : Outcome Cause α} (h : S.Rel o p) (f : α → β) :
    S.Rel (o.map f) (p.map f) := by
  rw [map_eq_sequel, map_eq_sequel]
  exact S.sequel f h fun _ => S.done _

theorem bind {o p : Outcome Cause α} {f g : α → Outcome Cause α} (h : S.Rel o p)
    (hf : ∀ x, S.Rel (f x) (g x)) : S.Rel (o.bind f) (p.bind g) := by
  rw [bind_eq_sequel, bind_eq_sequel]
  exact S.sequel id h hf

theorem useFor {o p : Outcome Cause β} {f g : β → Outcome Cause α} (h : S.Rel o p) (kept : α)
    (hf : ∀ x, S.Rel (f x) (g x)) : S.Rel (o.useFor kept f) (p.useFor kept g) := by
  rw [useFor_eq_sequel, useFor_eq_sequel]
  exact S.sequel _ h hf

theorem foldSteps {f g : β → α → Outcome Cause β} {xs : List α}
    (hf : ∀ x ∈ xs, ∀ slot, S.Rel (f slot x) (g slot x)) (slot : β) :
    S.Rel (foldSteps f slot xs) (foldSteps g slot xs) := by
  induction xs generalizing slot with
  | nil => exact S.done slot
  | cons x xs ih =>
    obtain ⟨head, tail⟩ := List.forall_mem_cons.1 hf
    exact S.bind (head slot) (ih tail)

theorem writeElem {f g : Value → Outcome Cause Value} (hf : ∀ v, S.Rel (f v) (g v)) (v : Value) :
    S.Rel (v.writeElem f) (v.writeElem g) := by
  fun_induction Value.writeElem f v with
  | case1 pointee target ih => exact S.map ih _
  | case2 v h =>
    rw [Value.writeElem.eq_2 _ _ h]
    exact hf v

theorem ofExcept {e : Except Cause α} (kept : α)
    (h : ∀ cause, e = .error cause → cause.isUnknownField = false) :
    S.Rel (ofExcept kept e) (ofExcept kept e) := by
  cases e with
  | ok slot => exact S.done slot
  | error cause => exact S.failed kept (h cause rfl)

/-! ## Filling lists of slots -/

section
variable {f g : Value → Value → Outcome Cause Value}

theorem fillItems {item : Ty} {source : List Value}
    (h : ∀ s ∈ source, ∀ d, S.Rel (f s d) (g s d)) (old : List Value) :
    S.Rel (fillItems f item old source) (fillItems g item old source) := by
  induction source generalizing old with
  | nil =>
    simp only [Recipe.fillItems]
    exact S.done []
  | cons s source ih =>
    obtain ⟨head, tail⟩ := List.forall_mem_cons.1 h
    cases old with
    | nil =>
      rw [fillItems_nil_cons, fillItems_nil_cons]
      exact S.useFor (head _) _ fun slot => S.sequel _ (ih tail []) fun slots => S.done _
    | cons o old =>
      rw [fillItems_cons_cons, fillItems_cons_cons]
      exact S.useFor (head _) _ fun slot => S.sequel _ (ih tail old) fun slots => S.done _

theorem fillSequence {item : Ty} {source : List Value}
    (h : ∀ s ∈ source, ∀ d, S.Rel (f s d) (g s d)) (length : Option Nat) (old : List Value) :
    S.Rel (fillSequence f item length old source) (fillSequence g item length old source) := by
  have fill : S.Rel (Recipe.fillItems f item old source) (Recipe.fillItems g item old source) :=
    S.fillItems h old
  cases length with
  | none => exact fill
  | some n =>
    rw [fillSequence_some, fillSequence_some]
    split
    · exact S.failed old rfl
    · exact S.bind fill fun items => S.done _

theorem rebuild {keyType valueType : Ty} {previous? : Value → Option Value} {pairs : Entries}
    (hk : ∀ p ∈ pairs, ∀ d, S.Rel (f p.1 d) (g p.1 d))
    (hv : ∀ p ∈ pairs, ∀ d, S.Rel (f p.2 d) (g p.2 d)) (r : Rebuilt) :
    S.Rel (rebuild f keyType valueType previous? r pairs)
      (rebuild g keyType valueType previous? r pairs) := by
  induction pairs generalizing r with
  | nil => exact S.done r
  | cons p pairs ih =>
    obtain ⟨headKey, tailKeys⟩ := List.forall_mem_cons.1 hk
    obtain ⟨headValue, tailValues⟩ := List.forall_mem_cons.1 hv
    exact S.useFor (headKey _) _ fun key =>
      S.useFor (headValue _) _ fun v => ih tailKeys tailValues _

theorem fillMap {keyType valueType : Ty} {pairs : Entries}
    (hk : ∀ p ∈ pairs, ∀ d, S.Rel (f p.1 d) (g p.1 d))
    (hv : ∀ p ∈ pairs, ∀ d, S.Rel (f p.2 d) (g p.2 d)) (old : Entries) :
    S.Rel (fillMap f keyType valueType old pairs) (fillMap g keyType valueType old pairs) :=
  S.useFor (S.rebuild hk hv _) _ fun r => S.done r.entries

theorem assignField {struct name : String} {v : Value} (h : ∀ d, S.Rel (f v d) (g v d))
    (fields : Fields) :
    S.Rel (assignField f σ.skipUnknownFields struct name v fields)
      (assignField g σ'.skipUnknownFields struct name v fields) := by
  induction fields with
  | nil => exact S.unknown struct name
  | cons field fields ih =>
    simp only [Recipe.assignField]
    split
    · exact S.map (h _) _
    · exact S.map ih _

end

/-! ## Actions -/

/-- The outcomes of two conversions are related when nested in an action. -/
def RelConversion (o p : Outcome ConversionError α) : Prop :=
  S.Rel (o.mapError .conversion) (p.mapError .conversion)

variable {f g : Value → Value → Outcome ConversionError Value} {src : Value}
  (h : ∀ s d, s.height < src.height → S.RelConversion (f s d) (g s d))
include h

theorem fillTarget {pairs : Entries}
    (lower : ∀ p ∈ pairs, p.1.height < src.height ∧ p.2.height < src.height) (dst : Value) :
    S.Rel (fillTarget ⟨σ, f⟩ pairs dst) (fillTarget ⟨σ', g⟩ pairs dst) := by
  refine S.writeElem (fun v => ?_) dst
  cases v with
  | map =>
    refine S.map (S.fillMap (fun p hp d => ?_) (fun p hp d => ?_) _) _
    · exact h _ d (lower p hp).1
    · exact h _ d (lower p hp).2
  | _ => exact S.failed _ rfl

theorem mapToMap (dst : Value) : S.Rel (mapToMap ⟨σ, f⟩ src dst) (mapToMap ⟨σ', g⟩ src dst) := by
  unfold Recipe.mapToMap
  cases elem : src.elem with
  | map key value entries =>
    refine S.fillTarget h (fun p hp => ⟨?_, ?_⟩) dst
    · exact Value.height_lt_of_mem_parts_elem (elem ▸ Value.mem_parts_map.2 ⟨p, hp, Or.inl rfl⟩)
    · exact Value.height_lt_of_mem_parts_elem (elem ▸ Value.mem_parts_map.2 ⟨p, hp, Or.inr rfl⟩)
  | _ => exact S.failed dst rfl

theorem structToMap (dst : Value) :
    S.Rel (structToMap ⟨σ, f⟩ src dst) (structToMap ⟨σ', g⟩ src dst) := by
  unfold Recipe.structToMap
  cases elem : src.elem with
  | struct name fields =>
    refine S.fillTarget h (fun p hp => ?_) dst
    obtain ⟨field, hfield, rfl⟩ := List.mem_map.1 hp
    have lower : field.2.height < src.height :=
      Value.height_lt_of_mem_parts_elem (elem ▸ List.mem_map_of_mem (List.mem_reverse.1 hfield))
    exact ⟨Nat.lt_of_le_of_lt (Nat.zero_le _) lower, lower⟩
  | _ => exact S.failed dst rfl

omit h in
theorem writeFields {write write' : String → Fields → Outcome Cause Fields}
    (hw : ∀ name fields, S.Rel (write name fields) (write' name fields)) (dst : Value) :
    S.Rel (writeFields write dst) (writeFields write' dst) := by
  refine S.writeElem (fun v => ?_) dst
  cases v with
  | struct => exact S.map (hw ..) _
  | _ => exact S.failed _ rfl

theorem mapToStruct (dst : Value) :
    S.Rel (mapToStruct ⟨σ, f⟩ src dst) (mapToStruct ⟨σ', g⟩ src dst) := by
  unfold Recipe.mapToStruct
  cases elem : src.elem with
  | map key value entries =>
    refine S.writeFields (fun struct fields => S.foldSteps (fun entry hentry slot => ?_) fields) dst
    have part : ∀ c, c = entry.1 ∨ c = entry.2 → c.height < src.height := fun c hc =>
      Value.height_lt_of_mem_parts_elem (elem ▸ Value.mem_parts_map.2 ⟨entry, hentry, hc⟩)
    refine S.useFor (h _ _ (part _ (Or.inl rfl))) _ fun key => ?_
    refine S.assignField (fun d => ?_) slot
    exact h _ d (part _ (Or.inr rfl))
  | _ => exact S.failed dst rfl

theorem structToStruct (dst : Value) :
    S.Rel (structToStruct ⟨σ, f⟩ src dst) (structToStruct ⟨σ', g⟩ src dst) := by
  unfold Recipe.structToStruct
  cases elem : src.elem with
  | struct name source =>
    refine S.writeFields (fun struct fields => S.foldSteps (fun field hfield slot => ?_) fields) dst
    have lower : field.2.height < src.height :=
      Value.height_lt_of_mem_parts_elem (elem ▸ List.mem_map_of_mem hfield)
    refine S.assignField (fun d => ?_) slot
    exact h _ d lower
  | _ => exact S.failed dst rfl

theorem sequenceToSequence (dst : Value) :
    S.Rel (sequenceToSequence ⟨σ, f⟩ src dst) (sequenceToSequence ⟨σ', g⟩ src dst) := by
  unfold Recipe.sequenceToSequence
  cases elem : src.elem with
  | seq item length source =>
    refine S.writeElem (fun v => ?_) dst
    cases v with
    | seq =>
      refine S.map (S.fillSequence (fun s hs d => ?_) _ _) _
      have part : s ∈ (Value.seq item length source).parts := hs
      exact h s d (Value.height_lt_of_mem_parts_elem (elem ▸ part))
    | _ => exact S.failed _ rfl
  | _ => exact S.failed dst rfl

/-- **Each standard action**, run on related nested conversions, has related outcomes. -/
theorem chosen {dst : Value} {action : Action} (found : chosen src dst = some action) :
    S.Rel (action ⟨σ, f⟩ src dst) (action ⟨σ', g⟩ src dst) := by
  rcases exact_or_byShape found with ⟨s, d, rfl, rfl, rfl⟩ | ⟨s, old, rfl, rfl, rfl⟩ |
    ⟨items, s, rfl, rfl, rfl⟩ | ⟨items, s, rfl, rfl, rfl⟩ | found
  · refine S.ofExcept _ fun cause failed => ?_
    obtain ⟨error, -, rfl⟩ := Except.mapError_eq_error failed
    rfl
  · exact S.done _
  · refine S.ofExcept _ fun cause failed => ?_
    obtain ⟨v, -, stray⟩ := Except.mapM_eq_error (Except.map_eq_error failed)
    exact byte_eq_error stray
  · refine S.ofExcept _ fun cause failed => ?_
    obtain ⟨v, -, stray⟩ := Except.mapM_eq_error (Except.map_eq_error failed)
    exact rune_eq_error stray
  · unfold byShape at found
    split at found <;> cases found
    · exact S.writeElem (fun v => S.done _) dst
    · exact S.writeElem (fun v => S.done _) dst
    · exact S.mapToMap h dst
    · exact S.structToMap h dst
    · exact S.mapToStruct h dst
    · exact S.structToStruct h dst
    · exact S.sequenceToSequence h dst

end Simulation

end Recast
