import Recast.Proofs.Identity
import Recast.Proofs.Merging

/-!
The slots inside a slot of each type: what a pointer leads to, items by index, fields by place and
values by key. With these, absorption goes up from the scalars, where only the last merge counts, to
every type without untyped positions (`Settings.absorbs`).
-/

namespace Recast

open Outcome Recipe

namespace Value

/-- What a pointer leads to, or would lead to once it is allocated. -/
def pointee : Value → Value
  | .pointer _ target => target
  | .nilPointer t => t.zero
  | v => v

def items : Value → List Value
  | .seq _ _ items => items
  | _ => []

def fields : Value → Fields
  | .struct _ fields => fields
  | _ => []

def entries : Value → Entries
  | .map _ _ entries => entries
  | _ => []

theorem Live.elem {v : Value} (h : v.Live) : v.elem.Live := Everywhere.elem h

theorem Live.part {v c : Value} (h : v.Live) (hc : c ∈ v.parts) : c.Live := Everywhere.part h hc

theorem live_scalar (s : Scalar) : (Value.scalar s).Live := everywhere_scalar.2 (by simp)

theorem Fits.pointee {v : Value} {t : Ty} (h : v.Fits (.pointer t)) : v.pointee.Fits t := by
  rcases h.exists_pointer with ⟨target, rfl, fits⟩ | rfl
  · exact fits
  · exact .zero (h.admitted.part (List.mem_singleton_self t))

end Value

namespace Settings

variable {σ : Settings} (hm : σ.mergeMode = .intoExisting)
include hm

/-! ## Pointers -/

/-- A pointer is allocated if need be, and then stays around what is merged. -/
theorem result?_pointee {src slot : Value} {t : Ty} (live : src.Live)
    (h : slot.Fits (.pointer t)) :
    σ.result? src slot = (σ.result? src slot.pointee).map (.pointer t) := by
  have inner := h.pointee.ne_nil
  rcases h.exists_pointer with ⟨target, rfl, -⟩ | rfl
  · exact σ.result?_pointer_right hm t src inner
  · rw [σ.result?_nilPointer_right t live.elem_isPointer]
    exact congrArg _ (σ.result?_elem src inner)

def pointerCoordinates (t : Ty) : σ.Coordinates (.pointer t) where
  ι := Unit
  sort _ := t
  look _ := Value.pointee
  merges _ src := [some src]
  fits h := h.pointee
  zero := rfl
  live := by
    intro _ src live m hm s hs
    cases List.mem_singleton.1 hm
    cases hs
    exact live
  follows := by
    rintro - src x y live hx merged
    rw [result?_pointee hm live hx] at merged
    obtain ⟨target, inner, rfl⟩ := Option.map_eq_some_iff.1 merged
    rw [mergeAll_singleton]
    exact inner
  ext := by
    intro src x x' y y' live hx hx' merged merged' agree
    rw [result?_pointee hm live hx] at merged
    rw [result?_pointee hm live hx'] at merged'
    obtain ⟨target, -, rfl⟩ := Option.map_eq_some_iff.1 merged
    obtain ⟨target', -, rfl⟩ := Option.map_eq_some_iff.1 merged'
    exact congrArg (Value.pointer t) (agree ())

/-! ## Scalars -/

/-- Nothing is inside a scalar. What it holds is settled by the last merge. -/
def scalarCoordinates (k : ScalarKind) : σ.Coordinates (.scalar k) where
  ι := Empty
  sort := Empty.elim
  look := Empty.elim
  merges := Empty.elim
  fits := fun {i} => i.elim
  zero := fun {i} => i.elim
  live := fun {i} => i.elim
  follows := fun {i} => i.elim
  ext := by
    intro src x x' y y' live hx hx' merged merged' _
    obtain ⟨s, rfl, hs⟩ := hx.exists_scalar
    obtain ⟨s', rfl, hs'⟩ := hx'.exists_scalar
    have kept := σ.start_of_intoExisting hm
    have same : σ.result? src (.scalar s) = some y ↔ σ.result? src (.scalar s') = some y :=
      result?_scalar_congr live.elem_isPointer (hs.trans hs'.symm) (kept _) (kept _)
    exact Option.some.inj ((same.1 merged).symm.trans merged')

/-! ## Sequences -/

omit hm in
theorem padTo_eq {n : Nat} {zero : Value} {filled old : List Value} (fits : filled.length ≤ n)
    (count : old.length = n) :
    padTo n zero (filled ++ (old.drop filled.length).take n) =
      filled ++ old.drop filled.length := by
  have whole : (old.drop filled.length).take n = old.drop filled.length := by
    apply List.take_of_length_le
    rw [List.length_drop]
    omega
  have full : n - (filled ++ old.drop filled.length).length = 0 := by
    rw [List.length_append, List.length_drop]
    omega
  rw [whole, padTo, full, List.replicate_zero, List.append_nil]

omit hm in
theorem eq_of_getD {xs ys : List Value} {zero : Value} (count : xs.length = ys.length)
    (agree : ∀ i : Nat, xs[i]?.getD zero = ys[i]?.getD zero) : xs = ys := by
  apply List.ext_getElem count
  intro i hi hi'
  have here := agree i
  rwa [List.getElem?_eq_getElem hi, List.getElem?_eq_getElem hi'] at here

/-- The items that a source gives to a sequence. -/
def itemsOf (src : Value) : List Value :=
  match src.elem with
  | .seq _ _ items => items
  | .scalar (.string s) => Value.bytesOf s
  | _ => []

omit hm in
theorem live_of_mem_itemsOf {src v : Value} (live : src.Live) (hv : v ∈ itemsOf src) : v.Live := by
  have inner := live.elem
  unfold itemsOf at hv
  split at hv
  · next elem =>
    rw [elem] at inner
    exact inner.part hv
  · obtain ⟨byte, -, rfl⟩ := List.mem_map.1 hv
    exact Value.live_scalar _
  · simp at hv

/-- What is merged into the item at an index. Past the end of the source a slice is cut off, so that
the next item there starts from zero, and an array keeps what it has. -/
def itemMerges (length : Option Nat) (i : Nat) (src : Value) : List Merge :=
  match (itemsOf src)[i]?, length with
  | some v, _ => [some v]
  | none, none => [none]
  | none, some _ => []

/-- The byte of a text replaces whatever byte is there. -/
theorem result?_byte {s : String} {b slot : Value} (hb : b ∈ Value.bytesOf s)
    (h : slot.Fits (.scalar (.int .uint8))) : σ.result? b slot = some b := by
  obtain ⟨byte, -, rfl⟩ := List.mem_map.1 hb
  obtain ⟨d, rfl, hd⟩ := h.exists_scalar
  rw [result?_scalar_eq_some (σ.start_of_intoExisting hm _), hd]
  exact ⟨_, Scalar.coerce_self _, rfl⟩

omit hm in
theorem item_fits {item : Ty} {length : Option Nat} {items : List Value}
    (h : (Value.seq item length items).Fits (.seq item length)) (i : Nat) :
    (items[i]?.getD item.zero).Fits item := by
  obtain ⟨_, same, -, each⟩ := h.exists_seq
  cases same
  cases at_i : items[i]? with
  | none => exact .zero (h.admitted.part (List.mem_singleton_self item))
  | some v => exact each v (List.mem_of_getElem? at_i)

theorem seq_follows {item : Ty} {length : Option Nat} {src y : Value} {old : List Value} {i : Nat}
    (live : src.Live) (hx : (Value.seq item length old).Fits (.seq item length))
    (merged : σ.result? src (.seq item length old) = some y) :
    σ.mergeAll (itemMerges length i src) (old[i]?.getD item.zero) =
      some (y.items[i]?.getD item.zero) := by
  obtain ⟨_, same, count, -⟩ := hx.exists_seq
  cases same
  have lookFits := item_fits hx i
  rw [result?_seq_eq_some live.elem_isPointer (σ.start_of_intoExisting hm _)] at merged
  rcases merged with ⟨s, elem, rfl, rfl, rfl⟩ | ⟨_, _, source, items, elem, filled, rfl⟩
  · have given : itemsOf src = Value.bytesOf s := by rw [itemsOf, elem]
    simp only [itemMerges, given, Value.items]
    cases at_i : (Value.bytesOf s)[i]? with
    | none => rw [mergeAll_singleton, merge, lookFits.reset_eq, Option.getD_none]
    | some b =>
      rw [mergeAll_singleton, Option.getD_some]
      exact result?_byte hm (List.mem_of_getElem? at_i) lookFits
  · have given : itemsOf src = source := by rw [itemsOf, elem]
    simp only [itemMerges, given, Value.items]
    rw [fillSequence_eq_done] at filled
    cases length with
    | none =>
      obtain ⟨lengths, slots⟩ := fillItems_eq_done.1 filled
      cases at_i : source[i]? with
      | none =>
        have past : items[i]? = none := by
          rw [List.getElem?_eq_none_iff] at at_i ⊢
          omega
        rw [mergeAll_singleton, merge, lookFits.reset_eq, past, Option.getD_none]
      | some v =>
        have inside : i < items.length := by
          have := (List.getElem?_eq_some_iff.1 at_i).1
          omega
        have at_i' := List.getElem?_eq_getElem inside
        rw [mergeAll_singleton, at_i', Option.getD_some]
        exact σ.nested_eq_done.1 (slots i v _ at_i at_i')
    | some n =>
      obtain ⟨fits, front, filled, rfl⟩ := filled
      obtain ⟨lengths, slots⟩ := fillItems_eq_done.1 filled
      rw [← lengths, padTo_eq (by omega) (count n rfl)]
      cases at_i : source[i]? with
      | none =>
        have past : front.length ≤ i := by
          rw [List.getElem?_eq_none_iff] at at_i
          omega
        have index : front.length + (i - front.length) = i := by omega
        rw [List.getElem?_append_right past, List.getElem?_drop, index]
        rfl
      | some v =>
        have inside : i < front.length := by
          have := (List.getElem?_eq_some_iff.1 at_i).1
          omega
        have at_i' := List.getElem?_eq_getElem inside
        rw [List.getElem?_append_left inside, mergeAll_singleton, at_i', Option.getD_some]
        exact σ.nested_eq_done.1 (slots i v _ at_i at_i')

theorem seq_ext {item : Ty} {length : Option Nat} {src x x' y y' : Value} (live : src.Live)
    (hx : x.Fits (.seq item length)) (hx' : x'.Fits (.seq item length))
    (merged : σ.result? src x = some y) (merged' : σ.result? src x' = some y')
    (agree : ∀ i : Nat, y.items[i]?.getD item.zero = y'.items[i]?.getD item.zero) : y = y' := by
  have hy := σ.result?_fits hx merged
  have hy' := σ.result?_fits hx' merged'
  obtain ⟨items, rfl, count, -⟩ := hy.exists_seq
  obtain ⟨items', rfl, count', -⟩ := hy'.exists_seq
  suffices lengths : items.length = items'.length by rw [eq_of_getD lengths agree]
  cases length with
  | some n => rw [count n rfl, count' n rfl]
  | none =>
    have given : ∀ {z : Value} {zs}, z.Fits (.seq item none) →
        σ.result? src z = some (.seq item none zs) → zs.length = (itemsOf src).length := by
      intro z zs hz done
      obtain ⟨old, rfl, -⟩ := hz.exists_seq
      rw [result?_seq_eq_some live.elem_isPointer (σ.start_of_intoExisting hm _)] at done
      rcases done with ⟨s, elem, -, -, same⟩ | ⟨_, _, source, filled, elem, fill, same⟩
      · cases same
        rw [itemsOf, elem]
      · cases same
        rw [itemsOf, elem]
        exact (fillItems_eq_done.1 (fillSequence_eq_done.1 fill)).1
    rw [given hx merged, given hx' merged']

def seqCoordinates (item : Ty) (length : Option Nat) : σ.Coordinates (.seq item length) where
  ι := Nat
  sort _ := item
  look i x := x.items[i]?.getD item.zero
  merges := itemMerges length
  fits := by
    intro i x hx
    obtain ⟨items, rfl, -⟩ := hx.exists_seq
    exact item_fits hx i
  zero := by
    intro i
    cases length with
    | none => rfl
    | some n =>
      rw [Ty.zero, Value.items, List.getElem?_replicate]
      split <;> rfl
  live := by
    intro i src live m hm s hs
    subst hs
    unfold itemMerges at hm
    split at hm
    · next at_i =>
      cases List.mem_singleton.1 hm
      exact live_of_mem_itemsOf live (List.mem_of_getElem? at_i)
    · cases List.mem_singleton.1 hm
    · cases hm
  follows := by
    intro i src x y live hx merged
    obtain ⟨old, rfl, -⟩ := hx.exists_seq
    exact seq_follows hm live hx merged
  ext live hx hx' merged merged' agree := seq_ext hm live hx hx' merged merged' agree

/-! ## Structs -/

/-- The names that a source has, where its keys can be converted to names. -/
def named (σ : Settings) (src : Value) : List (String × Value) :=
  match src.elem with
  | .struct _ fields => fields
  | .map _ _ entries =>
    entries.map fun e => (nameOf ((σ.result? e.1 (.string "")).getD .nil), e.2)
  | _ => []

omit hm in
theorem Names.eq_named {src : Value} {pairs : List (String × Value)}
    (h : σ.Names src.elem pairs) : pairs = σ.named src := by
  unfold named
  cases elem : src.elem with
  | struct name fields =>
    rw [elem] at h
    exact h.symm
  | map key value entries =>
    rw [elem, Names] at h
    have each : List.Forall₂ (· = ·)
        (entries.map fun e => (nameOf ((σ.result? e.1 (.string "")).getD .nil), e.2)) pairs := by
      rw [List.forall₂_map_left_iff]
      apply h.imp
      rintro e n ⟨key, converted, same⟩
      rw [converted, ← same, Option.getD_some]
    rw [List.forall₂_eq_eq_eq] at each
    exact each.symm
  | _ =>
    rw [elem] at h
    exact h.elim

omit hm in
theorem live_of_mem_named {src : Value} (live : src.Live) {p : String × Value}
    (hp : p ∈ σ.named src) : p.2.Live := by
  have inner := live.elem
  unfold named at hp
  split at hp
  · next elem =>
    rw [elem] at inner
    exact inner.part (List.mem_map_of_mem hp)
  · next elem =>
    rw [elem] at inner
    obtain ⟨e, he, rfl⟩ := List.mem_map.1 hp
    exact inner.part (Value.mem_parts_map.2 ⟨e, he, Or.inr rfl⟩)
  · simp at hp

/-- What is merged into the field at a place. Nil resets every field. -/
def fieldMerges (σ : Settings) (names : List String) (i : Nat) (src : Value) : List Merge :=
  if src.elem.isNil then [none] else (valuesFor names (σ.named src) i).map some

theorem struct_follows {name : String} {types : List (String × Ty)} {src y : Value}
    {fields : Fields} {i : Nat} {f : String × Value} {t : Ty} (live : src.Live)
    (hx : (Value.struct name fields).Fits (.struct name types)) (hf : fields[i]? = some f)
    (ht : types[i]?.map (·.2) = some t)
    (merged : σ.result? src (.struct name fields) = some y) :
    ∃ g, y.fields[i]? = some g ∧
      σ.mergeAll (fieldMerges σ (types.map (·.1)) i src) f.2 = some g.2 := by
  obtain ⟨_, same, names, each⟩ := hx.exists_struct
  cases same
  obtain ⟨u, hu, rfl⟩ := Option.map_eq_some_iff.1 ht
  rw [result?_struct_eq_some live.elem_isPointer (σ.start_of_intoExisting hm _)] at merged
  rcases merged with ⟨elem, rfl⟩ | ⟨pairs, fields', hpairs, assigned, rfl⟩
  · refine ⟨(u.1, u.2.zero), ?_, ?_⟩
    · rw [hx.reset_eq, Ty.zero, Ty.zeroFields_eq_map, Value.fields, List.getElem?_map, hu]
      rfl
    · rw [fieldMerges, elem, Value.isNil, if_pos rfl, mergeAll_singleton, merge,
        (each i f u hf hu).reset_eq]
  · obtain ⟨-, kept, slots⟩ := assignAll_eq_done.1 assigned
    have count : fields'.length = fields.length := by simpa using congrArg List.length kept
    have inside : i < fields'.length := by
      have := (List.getElem?_eq_some_iff.1 hf).1
      omega
    have at_i := List.getElem?_eq_getElem inside
    refine ⟨fields'[i], at_i, ?_⟩
    have notNil : src.elem.isNil = false := by
      cases elem : src.elem with
      | nil =>
        rw [elem] at hpairs
        exact hpairs.elim
      | _ => rfl
    rw [fieldMerges, notNil, ← names, ← hpairs.eq_named]
    exact σ.mergeAll_sources.2 (slots i f _ hf at_i)

def structCoordinates (name : String) (types : List (String × Ty)) :
    σ.Coordinates (.struct name types) where
  ι := Fin types.length
  sort i := types[i].2
  look i x := (x.fields[i.1]?.map (·.2)).getD .nil
  merges i := fieldMerges σ (types.map (·.1)) i
  fits := by
    intro i x hx
    obtain ⟨fields, rfl, names, each⟩ := hx.exists_struct
    have count : fields.length = types.length := by simpa using congrArg List.length names
    have inside : i.1 < fields.length := by omega
    have at_i := List.getElem?_eq_getElem inside
    simp only [Value.fields, at_i, Option.map_some, Option.getD_some]
    exact each i _ _ at_i (List.getElem?_eq_getElem i.2)
  zero := by
    intro i
    rw [Ty.zero, Ty.zeroFields_eq_map, Value.fields, List.getElem?_map,
      List.getElem?_eq_getElem i.2]
    rfl
  live := by
    intro i src live m hm s hs
    subst hs
    unfold fieldMerges at hm
    split at hm
    · cases List.mem_singleton.1 hm
    · obtain ⟨v, hv, same⟩ := List.mem_map.1 hm
      cases same
      obtain ⟨p, hp, rfl⟩ := List.mem_map.1 hv
      exact live_of_mem_named live (List.mem_filter.1 hp).1
  follows := by
    intro i src x y live hx merged
    obtain ⟨fields, rfl, names, -⟩ := hx.exists_struct
    have count : fields.length = types.length := by simpa using congrArg List.length names
    have inside : i.1 < fields.length := by omega
    have at_i := List.getElem?_eq_getElem inside
    have sort : types[i.1]?.map (·.2) = some types[i].2 := by
      rw [List.getElem?_eq_getElem i.2]
      rfl
    obtain ⟨g, hg, done⟩ := struct_follows hm live hx at_i sort merged
    have before :
        ((Value.struct name fields).fields[i.1]?.map (·.2)).getD .nil = fields[i.1].2 := by
      rw [Value.fields, at_i]
      rfl
    have after : (y.fields[i.1]?.map (·.2)).getD .nil = g.2 := by
      rw [hg]
      rfl
    rw [before, after]
    exact done
  ext := by
    intro src x x' y y' live hx hx' merged merged' agree
    have hy := σ.result?_fits hx merged
    have hy' := σ.result?_fits hx' merged'
    obtain ⟨fields, rfl, names, -⟩ := hy.exists_struct
    obtain ⟨fields', rfl, names', -⟩ := hy'.exists_struct
    have slots : ∀ (i : Nat) f g, fields[i]? = some f → fields'[i]? = some g → f.2 = g.2 := by
      intro i f g hf hg
      have count : fields.length = types.length := by simpa using congrArg List.length names
      have inside : i < types.length := by
        have := (List.getElem?_eq_some_iff.1 hf).1
        omega
      have here := agree ⟨i, inside⟩
      simpa only [Value.fields, hf, hg, Option.map_some, Option.getD_some] using here
    rw [fields_ext (names'.trans names.symm) slots]

/-! ## Maps -/

/-- The pairs that a source puts into a map, under the keys that they are converted to. -/
def keyed (σ : Settings) (key : Ty) (src : Value) : Entries :=
  (src.elem.pairs?.getD []).map fun p => ((σ.result? p.1 key.zero).getD .nil, p.2)

/-- The entries that a source makes, each with the last value for its key. -/
def plan (σ : Settings) (key : Ty) (src : Value) : Entries := Entries.collect (σ.keyed key src)

/-- A value is converted from what the old entries hold under its key. -/
def Renews (σ : Settings) (value : Ty) (old : Entries) (key v w : Value) : Prop :=
  σ.result? v ((old.get? key).getD value.zero) = some w

omit hm in
theorem Renews.congr {value : Ty} {old : Entries} (k k' v w : Value) (same : k' == k)
    (h : σ.Renews value old k v w) : σ.Renews value old k' v w := by
  rwa [Renews, old.get?_congr same]

omit hm in
theorem live_of_mem_pairs? {src : Value} {pairs : Entries} (live : src.Live)
    (h : src.elem.pairs? = some pairs) {p : Value × Value} (hp : p ∈ pairs) : p.2.Live :=
  live.elem.part (Value.mem_parts_of_mem_pairs? h hp).2

omit hm in
theorem live_of_get?_plan {key : Ty} {src κ v : Value} (live : src.Live)
    (found : (σ.plan key src).get? κ = some v) : v.Live := by
  obtain ⟨e, at_e, rfl⟩ := Option.map_eq_some_iff.1 found
  refine Entries.forall_mem_collect (fun p hp => ?_) e (List.mem_of_find?_eq_some at_e)
  obtain ⟨q, hq, rfl⟩ := List.mem_map.1 hp
  cases given : src.elem.pairs? with
  | none =>
    rw [given] at hq
    cases hq
  | some pairs =>
    rw [given] at hq
    have valueLive : q.2.Live := live_of_mem_pairs? live given hq
    exact valueLive

/-- A map that is filled has the planned keys, and each value renewed. -/
theorem map_renewed {key value : Ty} {src y : Value} {old : Entries} (live : src.Live)
    (merged : σ.result? src (.map key value old) = some y) :
    ∃ entries : Entries, y = .map key value entries ∧ entries.Distinct ∧
      Entries.Related (σ.Renews value old) (σ.plan key src) entries := by
  rw [result?_map_eq_some live.elem_isPointer (σ.start_of_intoExisting hm _)] at merged
  rcases merged with ⟨elem, rfl⟩ | ⟨pairs, converted, hpairs, each, rfl⟩
  · have empty : σ.plan key src = [] := by
      rw [plan, keyed, elem]
      rfl
    exact ⟨[], rfl, .nil, by rw [empty]; exact .nil⟩
  · refine ⟨Entries.collect converted, rfl, Entries.collect_distinct _, ?_⟩
    apply Entries.Related.collect Renews.congr
    rw [keyed, hpairs, Option.getD_some, Entries.Related, List.forall₂_map_left_iff]
    apply each.imp
    rintro p q ⟨hkey, hvalue⟩
    constructor
    · rw [hkey, Option.getD_some]
    · rw [hkey, Option.getD_some]
      exact hvalue

omit hm in
theorem entry_fits {key value : Ty} {entries : Entries} {κ : Value}
    (h : (Value.map key value entries).Fits (.map key value)) :
    ((entries.get? κ).getD value.zero).Fits value := by
  obtain ⟨_, same, each⟩ := h.exists_map
  cases same
  cases found : entries.get? κ with
  | none => exact .zero (h.admitted.part (by simp [Ty.parts]))
  | some v =>
    obtain ⟨e, at_e, rfl⟩ := Option.map_eq_some_iff.1 found
    exact each e (List.mem_of_find?_eq_some at_e)

theorem map_follows {key value : Ty} {src y κ : Value} {old : Entries} (live : src.Live)
    (hx : (Value.map key value old).Fits (.map key value))
    (merged : σ.result? src (.map key value old) = some y) :
    σ.merge ((σ.plan key src).get? κ) ((old.get? κ).getD value.zero) =
      some ((y.entries.get? κ).getD value.zero) := by
  obtain ⟨entries, rfl, -, related⟩ := map_renewed hm live merged
  have found := related.get? Renews.congr κ
  cases planned : (σ.plan key src).get? κ with
  | none =>
    rw [planned] at found
    rw [merge, Value.entries, found, (entry_fits hx).reset_eq, Option.getD_none]
  | some v =>
    rw [planned] at found
    obtain ⟨w, at_κ, renewed⟩ := found
    rw [merge, Value.entries, at_κ]
    exact renewed

omit hm in
theorem map_ext {key value : Ty} {src : Value} {old old' entries entries' : Entries}
    (distinct : entries.Distinct) (distinct' : entries'.Distinct)
    (related : Entries.Related (σ.Renews value old) (σ.plan key src) entries)
    (related' : Entries.Related (σ.Renews value old') (σ.plan key src) entries')
    (agree : ∀ κ, (entries.get? κ).getD value.zero = (entries'.get? κ).getD value.zero) :
    entries = entries' := by
  rw [Entries.Related, List.forall₂_iff_get] at related related'
  obtain ⟨count, each⟩ := related
  obtain ⟨count', each'⟩ := related'
  apply List.ext_getElem (count.symm.trans count')
  intro i hi hi'
  have planned : i < (σ.plan key src).length := by omega
  obtain ⟨sameKey, renewed⟩ := each i planned hi
  obtain ⟨sameKey', renewed'⟩ := each' i planned hi'
  simp only [List.get_eq_getElem] at sameKey renewed sameKey' renewed'
  have keys : entries[i].1 = entries'[i].1 := sameKey.trans sameKey'.symm
  refine Prod.ext keys ?_
  by_cases self : entries[i].1 == entries[i].1
  · have here := agree entries[i].1
    have self' : entries'[i].1 == entries'[i].1 := by rwa [← keys]
    rw [distinct.get?_of_mem (List.getElem_mem hi) self, keys,
      distinct'.get?_of_mem (List.getElem_mem hi') self'] at here
    exact here
  · -- A key that differs from itself is never found, so its value starts from zero both times.
    have lost : ((σ.plan key src)[i].1 == (σ.plan key src)[i].1) = false := by
      rw [← sameKey]
      simpa using self
    rw [Renews, Entries.get?_eq_none_of_ne_self _ lost] at renewed renewed'
    exact Option.some.inj (renewed.symm.trans renewed')

def mapCoordinates (key value : Ty) : σ.Coordinates (.map key value) where
  ι := Value
  sort _ := value
  look κ x := (x.entries.get? κ).getD value.zero
  merges κ src := [(σ.plan key src).get? κ]
  fits := by
    intro κ x hx
    obtain ⟨entries, rfl, -⟩ := hx.exists_map
    exact entry_fits hx
  zero := rfl
  live := by
    intro κ src live m hm s hs
    rw [List.mem_singleton] at hm
    exact live_of_get?_plan live (hm.symm.trans hs)
  follows := by
    intro κ src x y live hx merged
    obtain ⟨old, rfl, -⟩ := hx.exists_map
    rw [mergeAll_singleton]
    exact map_follows hm live hx merged
  ext := by
    intro src x x' y y' live hx hx' merged merged' agree
    obtain ⟨old, rfl, -⟩ := hx.exists_map
    obtain ⟨old', rfl, -⟩ := hx'.exists_map
    obtain ⟨entries, rfl, distinct, related⟩ := map_renewed hm live merged
    obtain ⟨entries', rfl, distinct', related'⟩ := map_renewed hm live merged'
    rw [map_ext distinct distinct' related related' agree]

/-! ## Every type -/

/-- **Merges absorb themselves** in a slot of any type without untyped positions. -/
theorem absorbs (t : Ty) : σ.Absorbs t := by
  induction t using Ty.partsInduction with
  | step t ih =>
    cases t with
    | any =>
      intro ms x y z _ hx
      exact absurd rfl hx.admitted.here
    | scalar k => exact (scalarCoordinates hm k).absorbs fun i => i.elim
    | map key value =>
      exact (mapCoordinates hm key value).absorbs fun _ => ih value (by simp [Ty.parts])
    | struct name types =>
      apply (structCoordinates hm name types).absorbs
      intro i
      exact ih _ (List.mem_map_of_mem (List.getElem_mem i.2))
    | seq item length =>
      exact (seqCoordinates hm item length).absorbs fun _ => ih item (List.mem_singleton_self item)
    | pointer t =>
      exact (pointerCoordinates hm t).absorbs fun _ => ih t (List.mem_singleton_self t)

end Settings

end Recast
