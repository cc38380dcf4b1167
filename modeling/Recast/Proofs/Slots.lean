import Mathlib.Data.List.Forall2
import Recast.Proofs.Outcome
import Recast.Recipe.Sequences
import Recast.Recipe.Structs

/-!
Items and fields, one slot at a time. A sequence is filled by index. The values that are assigned to
a struct are spread over its fields by name, and each field is converted from its own values in
turn, whatever goes into the others (`assignAll_eq_done`).
-/

namespace Recast.Recipe

open Outcome

variable {nested : Value → Value → Outcome Cause Value}

/-! ## Lists side by side -/

theorem map_eq_map_of_forall₂ {α β γ : Type} {f : α → γ} {g : β → γ} {xs : List α} {ys : List β}
    (h : List.Forall₂ (fun x y => f x = g y) xs ys) : xs.map f = ys.map g := by
  rwa [← List.forall₂_eq_eq_eq, List.forall₂_map_left_iff, List.forall₂_map_right_iff]

theorem exists_forall₂ {α β : Type} {R : α → β → Prop} {xs : List α} (h : ∀ x ∈ xs, ∃ y, R x y) :
    ∃ ys, List.Forall₂ R xs ys := by
  induction xs with
  | nil => exact ⟨[], .nil⟩
  | cons x xs ih =>
    obtain ⟨head, tail⟩ := List.forall_mem_cons.1 h
    obtain ⟨y, hy⟩ := head
    obtain ⟨ys, hys⟩ := ih tail
    exact ⟨y :: ys, .cons hy hys⟩

theorem exists_left_of_forall₂ {α β : Type} {R : α → β → Prop} {xs : List α} {ys : List β}
    (h : List.Forall₂ R xs ys) : ∀ y ∈ ys, ∃ x ∈ xs, R x y := by
  induction h with
  | nil => simp
  | @cons x y xs ys head _ ih =>
    refine List.forall_mem_cons.2 ⟨⟨x, List.mem_cons_self, head⟩, fun z hz => ?_⟩
    obtain ⟨w, hw, related⟩ := ih z hz
    exact ⟨w, List.mem_cons_of_mem x hw, related⟩

theorem exists_right_of_forall₂ {α β : Type} {R : α → β → Prop} {xs : List α} {ys : List β}
    (h : List.Forall₂ R xs ys) : ∀ x ∈ xs, ∃ y ∈ ys, R x y :=
  exists_left_of_forall₂ h.flip

theorem exists_between_forall₂ {α β γ : Type} {R : α → β → Prop} {S : β → γ → Prop} {xs : List α}
    {zs : List γ} (h : List.Forall₂ (fun x z => ∃ y, R x y ∧ S y z) xs zs) :
    ∃ ys, List.Forall₂ R xs ys ∧ List.Forall₂ S ys zs := by
  induction h with
  | nil => exact ⟨[], .nil, .nil⟩
  | cons head _ ih =>
    obtain ⟨y, left, right⟩ := head
    obtain ⟨ys, lefts, rights⟩ := ih
    exact ⟨y :: ys, .cons left lefts, .cons right rights⟩

theorem forall_mem_zip {α β : Type} {R : α → β → Prop} {xs : List α} {ys : List β}
    (h : List.Forall₂ R xs ys) : ∀ p ∈ ys.zip xs, R p.2 p.1 := by
  induction h with
  | nil => simp
  | cons head _ ih => exact List.forall_mem_cons.2 ⟨head, ih⟩

theorem exists_getElem? {α β : Type} {P : Nat → α → β → Prop} {xs : List α}
    (h : ∀ (i : Nat) x, xs[i]? = some x → ∃ y, P i x y) :
    ∃ ys : List β, ys.length = xs.length ∧
      ∀ (i : Nat) x y, xs[i]? = some x → ys[i]? = some y → P i x y := by
  induction xs generalizing P with
  | nil => exact ⟨[], rfl, by simp⟩
  | cons a xs ih =>
    obtain ⟨b, hb⟩ := h 0 a rfl
    have rest : ∀ (i : Nat) x, xs[i]? = some x → ∃ y, P (i + 1) x y :=
      fun i x hx => h (i + 1) x (by simpa using hx)
    obtain ⟨ys, count, each⟩ := ih rest
    refine ⟨b :: ys, by simp [count], fun i x y hx hy => ?_⟩
    cases i with
    | zero =>
      cases hx
      cases hy
      exact hb
    | succ i => exact each i x y (by simpa using hx) (by simpa using hy)

/-! ## Items -/

theorem fillItems_cons_eq_done {item : Ty} {old source items : List Value} {s : Value} :
    fillItems nested item old (s :: source) = .done items ↔
      ∃ v vs, nested s (old.head?.getD item.zero) = .done v ∧
        fillItems nested item old.tail source = .done vs ∧ items = v :: vs := by
  cases old with
  | nil =>
    simp only [fillItems, useFor_eq_done, List.head?_nil, Option.getD_none, List.tail_nil]
    cases fillItems nested item [] source <;> simp [eq_comm]
  | cons o old =>
    simp only [fillItems, useFor_eq_done, List.head?_cons, Option.getD_some, List.tail_cons]
    cases fillItems nested item old source <;> simp [eq_comm]

/-- **A sequence is filled by index**, each item from the old one at its place, or from zero. -/
theorem fillItems_eq_done {item : Ty} {old source items : List Value} :
    fillItems nested item old source = .done items ↔
      items.length = source.length ∧
        ∀ (i : Nat) s v, source[i]? = some s → items[i]? = some v →
          nested s (old[i]?.getD item.zero) = .done v := by
  induction source generalizing old items with
  | nil =>
    cases items <;> simp [fillItems]
  | cons s source ih =>
    rw [fillItems_cons_eq_done]
    have place : ∀ i : Nat, old.tail[i]? = old[i + 1]? := fun i => List.getElem?_tail
    constructor
    · rintro ⟨v, vs, head, tail, rfl⟩
      obtain ⟨count, each⟩ := ih.1 tail
      refine ⟨by simp [count], fun i t w ht hw => ?_⟩
      cases i with
      | zero =>
        simp only [List.getElem?_cons_zero, Option.some.injEq] at ht hw
        subst ht hw
        rwa [List.head?_eq_getElem?] at head
      | succ i =>
        rw [List.getElem?_cons_succ] at ht hw
        rw [← place]
        exact each i t w ht hw
    · rintro ⟨count, each⟩
      cases items with
      | nil => simp at count
      | cons v vs =>
        refine ⟨v, vs, ?_, ih.2 ⟨by simpa using count, fun i t w ht hw => ?_⟩, rfl⟩
        · rw [List.head?_eq_getElem?]
          exact each 0 s v rfl rfl
        · rw [place]
          exact each (i + 1) t w ht hw

/-- Items that start from zero, whatever their place. -/
theorem fillItems_fresh {item : Ty} {old source items : List Value}
    (fresh : ∀ i : Nat, old[i]?.getD item.zero = item.zero) :
    fillItems nested item old source = .done items ↔
      List.Forall₂ (fun s v => nested s item.zero = .done v) source items := by
  induction source generalizing old items with
  | nil => cases items <;> simp [fillItems]
  | cons s source ih =>
    have head : old.head?.getD item.zero = item.zero := List.head?_eq_getElem? ▸ fresh 0
    have tail : ∀ i : Nat, old.tail[i]?.getD item.zero = item.zero := fun i =>
      List.getElem?_tail ▸ fresh (i + 1)
    simp only [fillItems_cons_eq_done, head, ih tail, List.forall₂_cons_left_iff]

theorem exists_fillItems {item : Ty} {old source : List Value}
    (h : ∀ (i : Nat) s, source[i]? = some s → ∃ v, nested s (old[i]?.getD item.zero) = .done v) :
    ∃ items, fillItems nested item old source = .done items := by
  obtain ⟨items, filled⟩ := exists_getElem? h
  exact ⟨items, fillItems_eq_done.2 filled⟩

theorem fillSequence_eq_done {item : Ty} {length : Option Nat} {old source items : List Value} :
    fillSequence nested item length old source = .done items ↔
      match length with
      | none => fillItems nested item old source = .done items
      | some n => source.length ≤ n ∧ ∃ filled, fillItems nested item old source = .done filled ∧
          padTo n item.zero (filled ++ (old.drop source.length).take n) = items := by
  cases length with
  | none => rfl
  | some n =>
    simp only [fillSequence]
    split
    · next tooMany => simp [Nat.not_le.2 tooMany]
    · next fits =>
      simp only [Nat.not_lt] at fits
      cases fillItems nested item old source <;> simp [fits]

/-- An array that is given all its items. -/
theorem fillSequence_of_count {item : Ty} {length : Option Nat} {old source items : List Value}
    (count : ∀ n, length = some n → source.length = n ∧ old.length ≤ n)
    (filled : fillItems nested item old source = .done items) :
    fillSequence nested item length old source = .done items := by
  rw [fillSequence_eq_done]
  cases length with
  | none => exact filled
  | some n =>
    obtain ⟨rfl, fits⟩ := count n rfl
    have exhausted : old.drop source.length = [] := List.drop_eq_nil_iff.2 fits
    refine ⟨Nat.le_refl _, items, filled, ?_⟩
    simp [padTo, exhausted, (fillItems_eq_done.1 filled).1]

/-! ## Fields -/

/-- The place of the first name that matches up to case. -/
def slotOf (names : List String) (name : String) : Option Nat :=
  names.findIdx? (Text.foldEq · name)

/-- The values that are meant for a place, in turn. -/
def valuesFor (names : List String) (pairs : List (String × Value)) (i : Nat) : List Value :=
  (pairs.filter fun p => slotOf names p.1 == some i).map (·.2)

theorem valuesFor_cons (names : List String) (p : String × Value) (pairs : List (String × Value))
    (i : Nat) :
    valuesFor names (p :: pairs) i =
      if slotOf names p.1 == some i then p.2 :: valuesFor names pairs i
      else valuesFor names pairs i := by
  simp only [valuesFor, List.filter_cons]
  split <;> rfl

theorem assignField_eq_done {skip : Bool} {struct name : String} {v : Value}
    {fields fields' : Fields} :
    assignField nested skip struct name v fields = .done fields' ↔
      match slotOf (fields.map (·.1)) name with
      | none => skip = true ∧ fields = fields'
      | some i => ∃ f slot, fields[i]? = some f ∧ nested v f.2 = .done slot ∧
          fields.set i (f.1, slot) = fields' := by
  induction fields generalizing fields' with
  | nil =>
    simp only [assignField, slotOf, List.map_nil, List.findIdx?_nil]
    split <;> simp_all
  | cons f fields ih =>
    simp only [assignField, slotOf, List.map_cons, List.findIdx?_cons]
    by_cases here : Text.foldEq f.1 name
    · simp [here, map_eq_done]
    · simp only [here, Bool.false_eq_true, if_false, map_eq_done, ih]
      cases at_i : slotOf (fields.map (·.1)) name with
      | none =>
        rw [slotOf] at at_i
        simp only [at_i, Option.map_none]
        constructor
        · rintro ⟨_, ⟨skipped, rfl⟩, h⟩
          exact ⟨skipped, h⟩
        · rintro ⟨skipped, h⟩
          exact ⟨fields, ⟨skipped, rfl⟩, h⟩
      | some i =>
        rw [slotOf] at at_i
        simp only [at_i, Option.map_some]
        constructor
        · rintro ⟨_, ⟨g, slot, hg, converted, rfl⟩, rfl⟩
          exact ⟨g, slot, by simpa using hg, converted, by simp⟩
        · rintro ⟨g, slot, hg, converted, rfl⟩
          exact ⟨_, ⟨g, slot, by simpa using hg, converted, rfl⟩, by simp⟩

theorem map_fst_set {fields : Fields} {i : Nat} {f : String × Value} (h : fields[i]? = some f)
    (v : Value) : (fields.set i (f.1, v)).map (·.1) = fields.map (·.1) := by
  induction fields generalizing i with
  | nil => rfl
  | cons g fields ih =>
    cases i with
    | zero =>
      cases h
      rfl
    | succ i => simpa using ih h

/-- Assigning keeps the names. -/
theorem map_fst_assignField {skip : Bool} {struct name : String} {v : Value}
    {fields fields' : Fields} (h : assignField nested skip struct name v fields = .done fields') :
    fields'.map (·.1) = fields.map (·.1) := by
  rw [assignField_eq_done] at h
  split at h
  · rw [h.2]
  · obtain ⟨field, slot, here, -, rfl⟩ := h
    exact map_fst_set here slot

theorem fields_ext {α : Type} {fields fields' : List (String × α)}
    (names : fields'.map (·.1) = fields.map (·.1))
    (slots : ∀ (i : Nat) f f', fields[i]? = some f → fields'[i]? = some f' → f.2 = f'.2) :
    fields = fields' := by
  induction fields generalizing fields' with
  | nil => exact (List.map_eq_nil_iff.1 names).symm
  | cons f fields ih =>
    cases fields' with
    | nil => simp at names
    | cons f' fields' =>
      simp only [List.map_cons, List.cons.injEq] at names
      have head := Prod.ext names.1.symm (slots 0 f f' rfl rfl)
      rw [head, ih names.2 fun i => slots (i + 1)]

/-- Assigns values to the fields that their names stand for. -/
def assignAll (nested : Value → Value → Outcome Cause Value) (skip : Bool) (struct : String) :
    Fields → List (String × Value) → Outcome Cause Fields :=
  foldSteps fun fields p => assignField nested skip struct p.1 p.2 fields

/-- Converts values into one slot in turn. -/
def convertAll (nested : Value → Value → Outcome Cause Value) :
    Value → List Value → Outcome Cause Value :=
  foldSteps fun slot v => nested v slot

theorem assignAll_cons_eq_done {skip : Bool} {struct : String} {fields fields' : Fields}
    {p : String × Value} {pairs : List (String × Value)} :
    assignAll nested skip struct fields (p :: pairs) = .done fields' ↔
      ∃ mid, assignField nested skip struct p.1 p.2 fields = .done mid ∧
        assignAll nested skip struct mid pairs = .done fields' := bind_eq_done

theorem convertAll_cons_eq_done {slot slot' v : Value} {vs : List Value} :
    convertAll nested slot (v :: vs) = .done slot' ↔
      ∃ mid, nested v slot = .done mid ∧ convertAll nested mid vs = .done slot' := bind_eq_done

theorem convertAll_nil (slot : Value) : convertAll nested slot [] = .done slot := rfl

theorem convertAll_singleton_eq_done {slot slot' v : Value} :
    convertAll nested slot [v] = .done slot' ↔ nested v slot = .done slot' := by
  simp only [convertAll_cons_eq_done, convertAll_nil, Outcome.done.injEq, exists_eq_right]

/-- **Fields are filled apart from each other**, each from the values that are meant for it. -/
theorem assignAll_eq_done {skip : Bool} {struct : String} {fields fields' : Fields}
    {pairs : List (String × Value)} :
    assignAll nested skip struct fields pairs = .done fields' ↔
      (∀ p ∈ pairs, slotOf (fields.map (·.1)) p.1 = none → skip = true) ∧
        fields'.map (·.1) = fields.map (·.1) ∧
        ∀ (i : Nat) f f', fields[i]? = some f → fields'[i]? = some f' →
          convertAll nested f.2 (valuesFor (fields.map (·.1)) pairs i) = .done f'.2 := by
  induction pairs generalizing fields with
  | nil =>
    simp only [assignAll, foldSteps, Outcome.done.injEq, List.not_mem_nil, false_implies,
      implies_true, true_and, valuesFor, List.filter_nil, List.map_nil, convertAll]
    constructor
    · rintro rfl
      exact ⟨rfl, fun i f f' h h' => by rw [Option.some.inj (h.symm.trans h')]⟩
    · rintro ⟨names, slots⟩
      exact fields_ext names slots
  | cons p pairs ih =>
    simp only [assignAll_cons_eq_done, assignField_eq_done, ih, List.forall_mem_cons,
      valuesFor_cons]
    cases at_k : slotOf (fields.map (·.1)) p.1 with
    | none =>
      simp only [beq_eq_false_iff_ne.2 (Option.some_ne_none _).symm, Bool.false_eq_true, if_false,
        forall_const]
      constructor
      · rintro ⟨_, ⟨skipped, rfl⟩, known, rest⟩
        exact ⟨⟨skipped, known⟩, rest⟩
      · rintro ⟨⟨skipped, known⟩, rest⟩
        exact ⟨fields, ⟨skipped, rfl⟩, known, rest⟩
    | some k =>
      simp only [reduceCtorEq, false_implies, true_and]
      constructor
      · rintro ⟨_, ⟨f, slot, at_f, converted, rfl⟩, known, names, slots⟩
        rw [map_fst_set at_f] at known names slots
        refine ⟨known, names, fun i g g' hg hg' => ?_⟩
        by_cases same : k = i
        · subst same
          obtain rfl := Option.some.inj (at_f.symm.trans hg)
          have inside : k < fields.length := (List.getElem?_eq_some_iff.1 at_f).1
          have rest := slots k (f.1, slot) g' (List.getElem?_set_self inside) hg'
          simpa [convertAll_cons_eq_done] using ⟨slot, converted, rest⟩
        · have rest := slots i g g' (by rwa [List.getElem?_set_ne same]) hg'
          simpa [same] using rest
      · rintro ⟨known, names, slots⟩
        have inside : k < fields.length := by
          have := (List.findIdx?_eq_some_iff_getElem.1 at_k).1
          simpa using this
        have inside' : k < fields'.length := by
          have := congrArg List.length names
          simp only [List.length_map] at this
          omega
        have at_f := List.getElem?_eq_getElem inside
        have first := slots k _ _ at_f (List.getElem?_eq_getElem inside')
        simp only [beq_self_eq_true, if_true, convertAll_cons_eq_done] at first
        obtain ⟨slot, converted, rest⟩ := first
        refine ⟨_, ⟨fields[k], slot, at_f, converted, rfl⟩, ?_⟩
        rw [map_fst_set at_f]
        refine ⟨known, names, fun i g g' hg hg' => ?_⟩
        by_cases same : k = i
        · subst same
          rw [List.getElem?_set_self inside] at hg
          cases hg
          rw [List.getElem?_eq_getElem inside'] at hg'
          cases hg'
          exact rest
        · rw [List.getElem?_set_ne same] at hg
          have apart := slots i g g' hg hg'
          simpa [same] using apart

theorem exists_assignAll {skip : Bool} {struct : String} {fields : Fields}
    {pairs : List (String × Value)}
    (known : ∀ p ∈ pairs, slotOf (fields.map (·.1)) p.1 = none → skip = true)
    (h : ∀ (i : Nat) f, fields[i]? = some f →
      ∃ v, convertAll nested f.2 (valuesFor (fields.map (·.1)) pairs i) = .done v) :
    ∃ fields', assignAll nested skip struct fields pairs = .done fields' := by
  obtain ⟨slots, count, each⟩ := exists_getElem? h
  have keys : ((fields.map (·.1)).zip slots).map (·.1) = fields.map (·.1) := by
    apply List.map_fst_zip
    rw [List.length_map]
    omega
  refine ⟨(fields.map (·.1)).zip slots, assignAll_eq_done.2 ⟨known, keys, fun i f g hf hg => ?_⟩⟩
  exact each i f g.2 hf (List.getElem?_zip_eq_some.1 hg).2

/-! ## Entries -/

theorem assignEntry_eq_done {scope : Scope} {struct : String} {fields fields' : Fields}
    {e : Value × Value} :
    assignEntry scope struct fields e = .done fields' ↔
      ∃ key, scope.nested e.1 (.string "") = .done key ∧
        assignField scope.nested scope.settings.skipUnknownFields struct (nameOf key) e.2 fields =
          .done fields' := useFor_eq_done

/-- Entries are assigned as the names that their keys are converted to. -/
theorem assignEntries_eq_done {scope : Scope} {struct : String} {fields fields' : Fields}
    {entries : Entries} :
    foldSteps (assignEntry scope struct) fields entries = .done fields' ↔
      ∃ named, List.Forall₂ (fun e n => ∃ key, scope.nested e.1 (.string "") = .done key ∧
          (nameOf key, e.2) = n) entries named ∧
        assignAll scope.nested scope.settings.skipUnknownFields struct fields named =
          .done fields' := by
  induction entries generalizing fields with
  | nil => simp [foldSteps, assignAll]
  | cons e entries ih =>
    simp only [foldSteps, bind_eq_done, assignEntry_eq_done, ih, List.forall₂_cons_left_iff]
    constructor
    · rintro ⟨mid, ⟨key, hkey, head⟩, named, hnamed, tail⟩
      exact ⟨_, ⟨_, named, ⟨key, hkey, rfl⟩, hnamed, rfl⟩,
        assignAll_cons_eq_done.2 ⟨mid, head, tail⟩⟩
    · rintro ⟨_, ⟨_, named, ⟨key, hkey, rfl⟩, hnamed, rfl⟩, assigned⟩
      obtain ⟨mid, head, tail⟩ := assignAll_cons_eq_done.1 assigned
      exact ⟨mid, ⟨key, hkey, head⟩, named, hnamed, tail⟩

end Recast.Recipe
