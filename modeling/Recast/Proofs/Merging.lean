import Recast.Proofs.Results
import Recast.Proofs.Typing

/-!
Merges into one slot. When merging into what exists, the result of a conversion depends on what the
slot holds, and where several keys or names fall on one slot, several sources are merged into it in
turn. The law that makes converting twice the same as converting once is absorption: a sequence of
merges, done again to its own result, changes nothing (`Absorbs`).

It is not enough that each single merge has this property, so the law is about sequences from the
start. Those into a container are sequences into each slot inside it: `Coordinates` says how, and
`Coordinates.absorbs` carries the law from the slots to the container.
-/

namespace Recast

open Outcome Recipe

/-! ## Slots of a fixed type -/

/-- No position of the type is untyped. -/
def Ty.AnyFree (t : Ty) : Prop := t.Everywhere (· ≠ .any)

theorem Ty.AnyFree.scalar (k : ScalarKind) : (Ty.scalar k).AnyFree :=
  .intro (by simp) (by simp [Ty.parts])

theorem Ty.AnyFree.family : Ty.Family Ty.AnyFree where
  part h hu := h.part hu
  text := .scalar ScalarKind.string
  untyped h := absurd rfl h.here

theorem Ty.AnyFree.eq_of_acquires {t u : Ty} (ht : t.AnyFree) (h : t.Acquires u) : u = t := by
  induction h with
  | same => rfl
  | @struct name old new names fields ih =>
    have slots : ∀ (i : Nat) f g, old[i]? = some f → new[i]? = some g → f.2 = g.2 := by
      intro i f g hf hg
      have pair : (f, g) ∈ old.zip new := mem_zip_of_getElem? hf hg
      have free : f.2.AnyFree := ht.part (List.mem_map_of_mem (List.mem_of_getElem? hf))
      exact (ih (f, g) pair free.here free).symm
    rw [fields_ext names.symm slots]

namespace Value

/-- The value is of the type, throughout, and nothing in the type is left open. -/
abbrev Fits (v : Value) (t : Ty) : Prop := TypedSlot Ty.AnyFree t v

namespace Fits

variable {v : Value} {t : Ty}

theorem ne_nil (h : v.Fits t) : v ≠ .nil := by
  rintro rfl
  exact h.admitted.here h.conforms.eq_any_of_nil

theorem type_eq (h : v.Fits t) : v.type = t :=
  h.admitted.eq_of_acquires (h.conforms.acquires h.admitted.here)

theorem reset_eq (h : v.Fits t) : v.reset = t.zero := by rw [reset, h.type_eq]

theorem exists_scalar {k : ScalarKind} (h : v.Fits (.scalar k)) :
    ∃ s, v = .scalar s ∧ s.kind = k := by
  generalize shown : Ty.scalar k = t at h
  cases h.conforms with
  | any => cases shown
  | scalar s => exact ⟨s, rfl, (Ty.scalar.inj shown).symm⟩
  | _ => cases shown

theorem exists_map {key value : Ty} (h : v.Fits (.map key value)) :
    ∃ entries : Entries, v = .map key value entries ∧ ∀ e ∈ entries, e.2.Fits value := by
  obtain ⟨free, conforms, typed⟩ := h
  cases conforms with
  | @map _ _ entries keys values =>
    have valueFree : value.AnyFree := free.part (by simp [Ty.parts])
    exact ⟨entries, rfl, fun e he => ⟨valueFree, values e he, (wellTyped_map.1 typed e he).2.2⟩⟩

theorem exists_struct {name : String} {types : List (String × Ty)}
    (h : v.Fits (.struct name types)) :
    ∃ fields : Fields, v = .struct name fields ∧ fields.map (·.1) = types.map (·.1) ∧
      ∀ (i : Nat) f u, fields[i]? = some f → types[i]? = some u → f.2.Fits u.2 := by
  obtain ⟨free, conforms, typed⟩ := h
  cases conforms with
  | @struct _ fields _ names slots =>
    refine ⟨fields, rfl, names, fun i f u hf hu => ?_⟩
    have pair : (f, u) ∈ fields.zip types := mem_zip_of_getElem? hf hu
    have slotFree : u.2.AnyFree := free.part (List.mem_map_of_mem (List.mem_of_getElem? hu))
    exact ⟨slotFree, slots _ pair, wellTyped_struct.1 typed f (List.mem_of_getElem? hf)⟩

theorem exists_seq {item : Ty} {length : Option Nat} (h : v.Fits (.seq item length)) :
    ∃ items, v = .seq item length items ∧ (∀ n, length = some n → items.length = n) ∧
      ∀ w ∈ items, w.Fits item := by
  obtain ⟨free, conforms, typed⟩ := h
  cases conforms with
  | @seq _ _ items count each =>
    have itemFree : item.AnyFree := free.part (List.mem_singleton_self item)
    obtain ⟨-, itemsTyped⟩ := wellTyped_seq.1 typed
    exact ⟨items, rfl, count, fun w hw => ⟨itemFree, each w hw, (itemsTyped w hw).2⟩⟩

theorem exists_pointer {t : Ty} (h : v.Fits (.pointer t)) :
    (∃ target, v = .pointer t target ∧ target.Fits t) ∨ v = .nilPointer t := by
  obtain ⟨free, conforms, typed⟩ := h
  have targetFree : t.AnyFree := free.part (List.mem_singleton_self t)
  cases conforms with
  | @pointer _ target each =>
    exact Or.inl ⟨target, rfl, targetFree, each, (wellTyped_pointer.1 typed).2⟩
  | nilPointer => exact Or.inr rfl

end Fits

end Value

/-! ## Merges -/

/-- What is merged into a slot: a source, or nothing, which resets the slot. -/
abbrev Merge := Option Value

/-- The sources are without nil pointers. -/
def Merge.Live (merge : Merge) : Prop := ∀ src, merge = some src → src.Live

namespace Settings

variable (σ : Settings)

def merge : Merge → Value → Option Value
  | none, slot => some slot.reset
  | some src, slot => σ.result? src slot

/-- Merges in turn. -/
def mergeAll : List Merge → Value → Option Value
  | [], slot => some slot
  | m :: ms, slot => (σ.merge m slot).bind (mergeAll ms)

theorem mergeAll_append (ms ns : List Merge) (slot : Value) :
    σ.mergeAll (ms ++ ns) slot = (σ.mergeAll ms slot).bind (σ.mergeAll ns) := by
  induction ms generalizing slot with
  | nil => rfl
  | cons m ms ih =>
    simp only [List.cons_append, mergeAll]
    cases σ.merge m slot with
    | none => rfl
    | some next => exact ih next

theorem mergeAll_singleton (m : Merge) (slot : Value) : σ.mergeAll [m] slot = σ.merge m slot := by
  simp only [mergeAll]
  cases σ.merge m slot <;> rfl

theorem mergeAll_sources {slot slot' : Value} {vs : List Value} :
    σ.mergeAll (vs.map some) slot = some slot' ↔ convertAll σ.nested slot vs = .done slot' := by
  induction vs generalizing slot with
  | nil => simp [mergeAll, convertAll, foldSteps]
  | cons v vs ih =>
    simp only [List.map_cons, mergeAll, convertAll_cons_eq_done, nested_eq_done, merge,
      Option.bind_eq_some_iff, ih]

/-- A merge leaves a slot in its type. -/
theorem result?_fits {src slot slot' : Value} {t : Ty} (h : slot.Fits t)
    (merged : σ.result? src slot = some slot') : slot'.Fits t := by
  rw [result?_eq_some, convert, Context.run] at merged
  exact σ.convert_typing Ty.AnyFree.family (fun untyped => absurd rfl untyped.here) h merged

theorem merge_fits {m : Merge} {slot slot' : Value} {t : Ty} (h : slot.Fits t)
    (merged : σ.merge m slot = some slot') : slot'.Fits t := by
  cases m with
  | none =>
    cases merged
    rw [h.reset_eq]
    exact .zero h.admitted
  | some src => exact σ.result?_fits h merged

theorem mergeAll_fits {ms : List Merge} {slot slot' : Value} {t : Ty} (h : slot.Fits t)
    (merged : σ.mergeAll ms slot = some slot') : slot'.Fits t := by
  induction ms generalizing slot with
  | nil =>
    cases merged
    exact h
  | cons m ms ih =>
    obtain ⟨next, first, rest⟩ := Option.bind_eq_some_iff.1 merged
    exact ih (σ.merge_fits h first) rest

/-! ## Absorption -/

/-- Merges that are done again change nothing. -/
def Absorbs (t : Ty) : Prop :=
  ∀ (ms : List Merge) (x y z : Value), (∀ m ∈ ms, m.Live) → x.Fits t →
    σ.mergeAll ms x = some y → σ.mergeAll ms y = some z → z = y

/-- The slots inside a slot of a type, and what is merged into each of them when a source is merged
into the whole. -/
structure Coordinates (t : Ty) where
  ι : Type
  sort : ι → Ty
  /-- The slot at a coordinate. Where there is none, a zero value stands for it. -/
  look : ι → Value → Value
  merges : ι → Value → List Merge
  fits : ∀ {i x}, x.Fits t → (look i x).Fits (sort i)
  zero : ∀ {i}, look i t.zero = (sort i).zero
  live : ∀ {i src}, src.Live → ∀ m ∈ merges i src, m.Live
  follows : ∀ {i src x y}, src.Live → x.Fits t → σ.result? src x = some y →
    σ.mergeAll (merges i src) (look i x) = some (look i y)
  /-- Filled from one and the same source, values that agree at every coordinate are the same. -/
  ext : ∀ {src x x' y y'}, src.Live → x.Fits t → x'.Fits t → σ.result? src x = some y →
    σ.result? src x' = some y' → (∀ i, look i y = look i y') → y = y'

namespace Coordinates

variable {σ} {t : Ty} (C : σ.Coordinates t)

/-- A reset of the whole resets each slot inside. -/
def mergesAt (i : C.ι) : Merge → List Merge
  | none => [none]
  | some src => C.merges i src

theorem live_mergesAt {i : C.ι} {m : Merge} (live : m.Live) : ∀ n ∈ C.mergesAt i m, n.Live := by
  intro n hn
  cases m with
  | none =>
    rw [List.mem_singleton.1 hn]
    exact live
  | some src => exact C.live (live src rfl) n hn

theorem follows_merge {i : C.ι} {m : Merge} {x y : Value} (live : m.Live) (h : x.Fits t)
    (merged : σ.merge m x = some y) :
    σ.mergeAll (C.mergesAt i m) (C.look i x) = some (C.look i y) := by
  cases m with
  | none =>
    cases merged
    rw [mergesAt, mergeAll_singleton, merge, (C.fits h).reset_eq, h.reset_eq, C.zero]
  | some src => exact C.follows (live src rfl) h merged

theorem follows_all {i : C.ι} {ms : List Merge} {x y : Value} (live : ∀ m ∈ ms, m.Live)
    (h : x.Fits t) (merged : σ.mergeAll ms x = some y) :
    σ.mergeAll (ms.flatMap (C.mergesAt i)) (C.look i x) = some (C.look i y) := by
  induction ms generalizing x with
  | nil =>
    cases merged
    rfl
  | cons m ms ih =>
    obtain ⟨next, first, rest⟩ := Option.bind_eq_some_iff.1 merged
    obtain ⟨headLive, tailLive⟩ := List.forall_mem_cons.1 live
    rw [List.flatMap_cons, mergeAll_append, C.follows_merge headLive h first]
    exact ih tailLive (σ.merge_fits h first) rest

theorem ext_merge {m : Merge} {x x' y y' : Value} (live : m.Live) (h : x.Fits t) (h' : x'.Fits t)
    (merged : σ.merge m x = some y) (merged' : σ.merge m x' = some y')
    (agree : ∀ i, C.look i y = C.look i y') : y = y' := by
  cases m with
  | none =>
    cases merged
    cases merged'
    rw [h.reset_eq, h'.reset_eq]
  | some src => exact C.ext (live src rfl) h h' merged merged' agree

/-- **Absorption goes from the slots inside to the whole.** -/
theorem absorbs (inner : ∀ i, σ.Absorbs (C.sort i)) : σ.Absorbs t := by
  intro ms x y z live hx once twice
  have agree : ∀ i, C.look i z = C.look i y := by
    intro i
    apply inner i (ms.flatMap (C.mergesAt i)) (C.look i x) (C.look i y) (C.look i z)
    · intro n hn
      obtain ⟨m, hm, hn⟩ := List.mem_flatMap.1 hn
      exact C.live_mergesAt (live m hm) n hn
    · exact C.fits hx
    · exact C.follows_all live hx once
    · exact C.follows_all live (σ.mergeAll_fits hx once) twice
  -- The last merge is the same both times, and settles what no coordinate shows.
  rcases List.eq_nil_or_concat ms with rfl | ⟨front, last, rfl⟩
  · cases once
    cases twice
    rfl
  · have lastLive : last.Live := live last (by simp)
    rw [List.concat_eq_append, mergeAll_append, Option.bind_eq_some_iff] at once twice
    obtain ⟨x', front₁, last₁⟩ := once
    obtain ⟨z', front₂, last₂⟩ := twice
    rw [mergeAll_singleton] at last₁ last₂
    have hx' := σ.mergeAll_fits hx front₁
    have hz' := σ.mergeAll_fits (σ.merge_fits hx' last₁) front₂
    exact C.ext_merge lastLive hz' hx' last₂ last₁ agree

end Coordinates

end Settings

end Recast
