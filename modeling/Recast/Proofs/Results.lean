import Recast.Proofs.Entries
import Recast.Proofs.Pointers
import Recast.Proofs.Slots

/-!
What a conversion that succeeds leaves in each kind of destination. The source is seen through its
live pointers and is no nil pointer. The destination is one that the conversion starts from as it
is: any value when merging into what exists, a zero value in either mode.
-/

namespace Recast

open Outcome Recipe

namespace Settings

variable (σ : Settings)

/-- The conversion of what is inside. -/
def nested (src dst : Value) : Outcome Cause Value := Scope.nested ⟨σ, σ.convert⟩ src dst

theorem nested_eq_done {src dst dst' : Value} :
    σ.nested src dst = .done dst' ↔ σ.result? src dst = some dst' := by
  rw [nested, Scope.nested, mapError_eq_done, result?_eq_some]

theorem start_zero (t : Ty) : σ.start t.zero = t.zero := by
  rcases σ.start_cases t.zero with kept | reset
  · exact kept
  · rw [reset, Ty.type_zero]

/-- The names that a source has, and a value for each. Keys are converted to names. -/
def Names : Value → List (String × Value) → Prop
  | .struct _ fields, named => fields = named
  | .map _ _ entries, named =>
    List.Forall₂ (fun e n => ∃ key, σ.result? e.1 (.string "") = some key ∧ (nameOf key, e.2) = n)
      entries named
  | _, _ => False

end Settings

namespace Value

/-- No pointer in the value leads nowhere. -/
def Live (v : Value) : Prop := v.Everywhere fun w => ∀ pointee, w ≠ .nilPointer pointee

theorem Live.elem_isPointer {v : Value} (h : v.Live) : v.elem.isPointer = false := by
  have here := h.elem.here
  cases elem : v.elem with
  | pointer pointee target => exact absurd elem (elem_ne_pointer v pointee target)
  | nilPointer pointee => exact absurd elem (here pointee)
  | _ => rfl

end Value

/-- The pairs that a source puts into a map. -/
def Value.pairs? : Value → Option Entries
  | .map _ _ entries => some entries
  | .struct _ fields => some (fields.reverse.map fun f => (.string f.1, f.2))
  | _ => none

theorem Value.mem_parts_of_mem_pairs? {v : Value} {pairs : Entries} (h : v.pairs? = some pairs)
    {p : Value × Value} (hp : p ∈ pairs) :
    (p.1 ∈ v.parts ∨ ∃ s, p.1 = .string s) ∧ p.2 ∈ v.parts := by
  cases v with
  | map key value entries =>
    cases h
    exact ⟨.inl (mem_parts_map.2 ⟨p, hp, .inl rfl⟩), mem_parts_map.2 ⟨p, hp, .inr rfl⟩⟩
  | struct name fields =>
    cases h
    obtain ⟨f, hf, rfl⟩ := List.mem_map.1 hp
    exact ⟨.inr ⟨f.1, rfl⟩, List.mem_map_of_mem (List.mem_reverse.1 hf)⟩
  | _ => cases h

/-- The bytes of a text, as items. -/
def Value.bytesOf (s : String) : List Value :=
  (Text.utf8Encode s).map fun byte => .scalar (.int .uint8 byte)

namespace Settings

theorem Names.mem_parts {σ : Settings} {v : Value} {named : Fields} (h : σ.Names v named)
    {p : String × Value} (hp : p ∈ named) : p.2 ∈ v.parts := by
  cases v with
  | struct name fields =>
    obtain rfl : fields = named := h
    exact List.mem_map_of_mem hp
  | map key value entries =>
    have values : entries.map (·.2) = named.map (·.2) := by
      refine map_eq_map_of_forall₂ (List.Forall₂.imp ?_ h)
      rintro e _ ⟨_, -, rfl⟩
      rfl
    have member : p.2 ∈ entries.map (·.2) := values ▸ List.mem_map_of_mem hp
    obtain ⟨e, he, same⟩ := List.mem_map.1 member
    exact Value.mem_parts_map.2 ⟨e, he, .inr same.symm⟩
  | _ => exact h.elim

variable {σ : Settings} {src dst dst' : Value}

theorem done_of_chosen (notNil : dst ≠ .nil) (kept : σ.start dst = dst) {action : Action}
    (found : chosen src dst = some action) :
    σ.result? src dst = some dst' ↔ action ⟨σ, σ.convert⟩ src dst = .done dst' := by
  rw [σ.result?_of_start notNil kept found, done?_eq_some]

theorem result?_of_none (notNil : dst ≠ .nil) (kept : σ.start dst = dst)
    (found : chosen src dst = none) (source : src.isPointer = false)
    (target : dst.isPointer = false) : σ.result? src dst = none := by
  rw [σ.result?_of_not_chosen notNil (by rw [kept, found]), kept]
  cases src <;> simp only [Value.isPointer, Bool.true_eq_false] at source <;>
    cases dst <;> simp only [Value.isPointer, Bool.true_eq_false] at target <;> rfl

/-! ## Scalars -/

theorem result?_scalar_eq_some {s d : Scalar} (kept : σ.start (.scalar d) = .scalar d) :
    σ.result? (.scalar s) (.scalar d) = some dst' ↔
      ∃ s', s.coerce d.kind = .ok s' ∧ .scalar s' = dst' := by
  have found : chosen (.scalar s) (.scalar d) = some coerce := rfl
  rw [done_of_chosen (by simp) kept found]
  simp only [coerce, Value.coerce, ofExcept_eq_done]
  cases s.coerce d.kind <;> simp [Except.map, Except.mapError]

theorem result?_scalar_of_coerce (σ : Settings) {s s' : Scalar} {k : ScalarKind}
    (h : s.coerce k = .ok s') : σ.result? (.scalar s) (Ty.scalar k).zero = some (.scalar s') := by
  have kept := σ.start_zero (.scalar k)
  rw [Ty.zero] at kept ⊢
  rw [result?_scalar_eq_some kept, ScalarKind.kind_zero]
  exact ⟨s', h, rfl⟩

/-- What becomes of a scalar depends on its type alone. -/
theorem result?_scalar_congr (live : src.elem.isPointer = false) {d d' : Scalar}
    (sameKind : d.kind = d'.kind) (kept : σ.start (.scalar d) = .scalar d)
    (kept' : σ.start (.scalar d') = .scalar d') :
    σ.result? src (.scalar d) = some dst' ↔ σ.result? src (.scalar d') = some dst' := by
  have notNil : ∀ d, Value.scalar d ≠ .nil := by simp
  rw [← σ.result?_elem src (notNil d), ← σ.result?_elem src (notNil d')]
  cases elem : src.elem with
  | scalar s => rw [result?_scalar_eq_some kept, result?_scalar_eq_some kept', sameKind]
  | seq item length items =>
    by_cases text : d.kind = .string
    · have text' := sameKind.symm.trans text
      cases d <;> cases text
      cases d' <;> cases text'
      next a b =>
      -- The old text is not looked at, neither for the choice nor by the action.
      have sameChoice : chosen (.seq item length items) (.string a) =
          chosen (.seq item length items) (.string b) := by
        unfold chosen
        split <;> split <;> simp_all [byShape, Value.shape]
      cases found : chosen (.seq item length items) (.string a) with
      | none =>
        have found' := sameChoice.symm.trans found
        rw [result?_of_none (by simp) kept found rfl rfl,
          result?_of_none (by simp) kept' found' rfl rfl]
      | some action =>
        have found' := sameChoice.symm.trans found
        rw [done_of_chosen (by simp) kept found, done_of_chosen (by simp) kept' found']
        rcases exact_or_byShape found with ⟨_, _, h, _⟩ | ⟨_, _, h, _⟩ | ⟨_, _, _, _, rfl⟩ |
          ⟨_, _, _, _, rfl⟩ | h
        · cases h
        · cases h
        · simp [bytesToText, ofExcept_eq_done]
        · simp [runesToText, ofExcept_eq_done]
        · simp [byShape, Value.shape] at h
    · have refused : ∀ d : Scalar, d.kind ≠ .string →
          chosen (.seq item length items) (.scalar d) = none := by
        intro d hd
        unfold chosen
        split <;> simp_all [Scalar.kind, byShape, Value.shape]
      rw [result?_of_none (by simp) kept (refused d text) rfl rfl,
        result?_of_none (by simp) kept' (refused d' (sameKind ▸ text)) rfl rfl]
  | pointer p target => exact absurd elem (Value.elem_ne_pointer src p target)
  | nilPointer p => simp [elem, Value.isPointer] at live
  | nil | map | struct =>
    rw [result?_of_none (by simp) kept (by simp [chosen, byShape, Value.shape]) rfl rfl,
      result?_of_none (by simp) kept' (by simp [chosen, byShape, Value.shape]) rfl rfl]

/-! ## Maps -/

theorem fillTarget_eq_done {key value : Ty} {old pairs : Entries} :
    fillTarget ⟨σ, σ.convert⟩ pairs (.map key value old) = .done dst' ↔
      ∃ converted : Entries, List.Forall₂ (fun p q => σ.result? p.1 key.zero = some q.1 ∧
        σ.result? p.2 ((old.get? q.1).getD value.zero) = some q.2) pairs converted ∧
        .map key value (Entries.collect converted) = dst' := by
  simp only [fillTarget, Value.writeElem, map_eq_done, fillMap_eq_done, ← nested_eq_done, nested]
  constructor
  · rintro ⟨_, ⟨converted, each, rfl⟩, rfl⟩
    exact ⟨converted, each, rfl⟩
  · rintro ⟨converted, each, rfl⟩
    exact ⟨_, ⟨converted, each, rfl⟩, rfl⟩

theorem result?_map_eq_some (live : src.elem.isPointer = false) {key value : Ty} {old : Entries}
    (kept : σ.start (.map key value old) = .map key value old) :
    σ.result? src (.map key value old) = some dst' ↔
      (src.elem = .nil ∧ .map key value [] = dst') ∨
      ∃ pairs converted, src.elem.pairs? = some pairs ∧
        List.Forall₂ (fun p q => σ.result? p.1 key.zero = some q.1 ∧
          σ.result? p.2 ((old.get? q.1).getD value.zero) = some q.2) pairs converted ∧
        .map key value (Entries.collect converted) = dst' := by
  have notNil : Value.map key value old ≠ .nil := by simp
  rw [← σ.result?_elem src notNil]
  cases elem : src.elem with
  | nil =>
    have found : chosen .nil (.map key value old) = some nilToZero := rfl
    rw [done_of_chosen notNil kept found]
    simp [nilToZero, Value.writeElem, Value.reset, Value.type, Ty.zero, Value.pairs?]
  | map k v entries =>
    have found : chosen (.map k v entries) (.map key value old) = some mapToMap := rfl
    rw [done_of_chosen notNil kept found]
    simpa [mapToMap, Value.elem, Value.pairs?] using fillTarget_eq_done
  | struct name fields =>
    have found : chosen (.struct name fields) (.map key value old) = some structToMap := rfl
    rw [done_of_chosen notNil kept found]
    simpa [structToMap, Value.elem, Value.pairs?] using fillTarget_eq_done
  | pointer p target => exact absurd elem (Value.elem_ne_pointer src p target)
  | nilPointer p => simp [elem, Value.isPointer] at live
  | scalar s =>
    rw [result?_of_none notNil kept (by simp [chosen, byShape, Value.shape]) rfl rfl]
    simp [Value.pairs?]
  | seq item length items =>
    rw [result?_of_none notNil kept (by simp [chosen, byShape, Value.shape]) rfl rfl]
    simp [Value.pairs?]

/-- An empty map is filled from nothing but the pairs. -/
theorem result?_zero_map {key value : Ty} {pairs converted : Entries}
    (given : src.elem.pairs? = some pairs)
    (each : List.Forall₂ (fun p q => σ.result? p.1 key.zero = some q.1 ∧
      σ.result? p.2 value.zero = some q.2) pairs converted) :
    σ.result? src (Ty.map key value).zero = some (.map key value (Entries.collect converted)) := by
  have live : src.elem.isPointer = false := by
    cases elem : src.elem <;> first | rfl | simp [elem, Value.pairs?] at given
  have kept := σ.start_zero (.map key value)
  rw [Ty.zero] at kept ⊢
  rw [result?_map_eq_some live kept]
  exact .inr ⟨pairs, converted, given, each, rfl⟩

/-! ## Structs -/

theorem assignEntries_eq_done {struct : String} {fields fields' : Fields} {entries : Entries} :
    foldSteps (assignEntry ⟨σ, σ.convert⟩ struct) fields entries = .done fields' ↔
      ∃ named, σ.Names (.map .any .any entries) named ∧
        assignAll σ.nested σ.skipUnknownFields struct fields named = .done fields' := by
  simp only [Recipe.assignEntries_eq_done, Names, ← nested_eq_done]
  rfl

theorem result?_struct_eq_some (live : src.elem.isPointer = false) {name : String} {fields : Fields}
    (kept : σ.start (.struct name fields) = .struct name fields) :
    σ.result? src (.struct name fields) = some dst' ↔
      (src.elem = .nil ∧ (Value.struct name fields).reset = dst') ∨
      ∃ named fields', σ.Names src.elem named ∧
        assignAll σ.nested σ.skipUnknownFields name fields named = .done fields' ∧
        .struct name fields' = dst' := by
  have notNil : Value.struct name fields ≠ .nil := by simp
  rw [← σ.result?_elem src notNil]
  cases elem : src.elem with
  | nil =>
    have found : chosen .nil (.struct name fields) = some nilToZero := rfl
    rw [done_of_chosen notNil kept found]
    simp [nilToZero, Value.writeElem, Names]
  | map k v entries =>
    have found : chosen (.map k v entries) (.struct name fields) = some mapToStruct := rfl
    rw [done_of_chosen notNil kept found]
    simp only [mapToStruct, Value.elem, writeFields, Value.writeElem, map_eq_done,
      assignEntries_eq_done, Names, reduceCtorEq, false_and, false_or]
    constructor
    · rintro ⟨fields', ⟨named, hnamed, assigned⟩, rfl⟩
      exact ⟨named, fields', hnamed, assigned, rfl⟩
    · rintro ⟨named, fields', hnamed, assigned, rfl⟩
      exact ⟨fields', ⟨named, hnamed, assigned⟩, rfl⟩
  | struct n source =>
    have found : chosen (.struct n source) (.struct name fields) = some structToStruct := rfl
    rw [done_of_chosen notNil kept found]
    simp only [structToStruct, Value.elem, writeFields, Value.writeElem, map_eq_done, Names,
      reduceCtorEq, false_and, false_or]
    constructor
    · rintro ⟨fields', assigned, rfl⟩
      exact ⟨source, fields', rfl, assigned, rfl⟩
    · rintro ⟨_, fields', rfl, assigned, rfl⟩
      exact ⟨fields', assigned, rfl⟩
  | pointer p target => exact absurd elem (Value.elem_ne_pointer src p target)
  | nilPointer p => simp [elem, Value.isPointer] at live
  | scalar s =>
    rw [result?_of_none notNil kept (by simp [chosen, byShape, Value.shape]) rfl rfl]
    simp [Names]
  | seq item length items =>
    rw [result?_of_none notNil kept (by simp [chosen, byShape, Value.shape]) rfl rfl]
    simp [Names]

/-! ## Sequences -/

/-- The items that a zero sequence has, zero values themselves. -/
theorem exists_zero_seq (item : Ty) (length : Option Nat) :
    ∃ old : List Value, (Ty.seq item length).zero = .seq item length old ∧
      (∀ i : Nat, old[i]?.getD item.zero = item.zero) ∧ ∀ n, length = some n → old.length = n := by
  cases length with
  | none => exact ⟨[], rfl, by simp, by simp⟩
  | some n =>
    refine ⟨List.replicate n item.zero, rfl, fun i => ?_, by simp⟩
    rw [List.getElem?_replicate]
    split <;> rfl

theorem result?_seq_eq_some (live : src.elem.isPointer = false) {item : Ty}
    {length : Option Nat} {old : List Value}
    (kept : σ.start (.seq item length old) = .seq item length old) :
    σ.result? src (.seq item length old) = some dst' ↔
      (∃ s, src.elem = .string s ∧ item = .scalar (.int .uint8) ∧ length = none ∧
        .seq item length (Value.bytesOf s) = dst') ∨
      ∃ t n source items, src.elem = .seq t n source ∧
        fillSequence σ.nested item length old source = .done items ∧
        .seq item length items = dst' := by
  have notNil : Value.seq item length old ≠ .nil := by simp
  rw [← σ.result?_elem src notNil]
  cases elem : src.elem with
  | seq t n source =>
    have found : chosen (.seq t n source) (.seq item length old) = some sequenceToSequence := by
      simp [chosen, byShape, Value.shape]
    rw [done_of_chosen notNil kept found]
    simp only [sequenceToSequence, Value.elem, Value.writeElem, map_eq_done]
    constructor
    · rintro ⟨items, filled, rfl⟩
      exact Or.inr ⟨t, n, source, items, rfl, filled, rfl⟩
    · rintro (⟨_, h, _⟩ | ⟨_, _, _, items, h, filled, rfl⟩)
      · cases h
      · cases h
        exact ⟨items, filled, rfl⟩
  | scalar s =>
    by_cases text : s.kind = .string ∧ item = .scalar (.int .uint8) ∧ length = none
    · obtain ⟨hs, rfl, rfl⟩ := text
      cases s <;> cases hs
      next s =>
      have found : chosen (.string s) (.seq (.scalar (.int .uint8)) none old) =
          some textToBytes := rfl
      rw [done_of_chosen notNil kept found]
      simp [textToBytes, Value.bytesOf]
    · have found : chosen (.scalar s) (.seq item length old) = none := by
        unfold chosen
        split <;> simp_all [Scalar.kind, byShape, Value.shape]
      rw [result?_of_none notNil kept found rfl rfl]
      simp only [reduceCtorEq, false_iff]
      rintro (⟨_, h, hitem, hlength, _⟩ | ⟨_, _, _, _, h, _⟩)
      · cases h
        exact text ⟨rfl, hitem, hlength⟩
      · cases h
  | pointer p target => exact absurd elem (Value.elem_ne_pointer src p target)
  | nilPointer p => simp [elem, Value.isPointer] at live
  | nil =>
    rw [result?_of_none notNil kept (by simp [chosen, byShape, Value.shape]) rfl rfl]
    simp
  | map k v entries =>
    rw [result?_of_none notNil kept (by simp [chosen, byShape, Value.shape]) rfl rfl]
    simp
  | struct name fields =>
    rw [result?_of_none notNil kept (by simp [chosen, byShape, Value.shape]) rfl rfl]
    simp

/-- A zero sequence is filled from the items alone. -/
theorem result?_zero_seq {t item : Ty} {n length : Option Nat} {source items : List Value}
    (given : src.elem = .seq t n source) (count : ∀ n, length = some n → source.length = n)
    (each : List.Forall₂ (fun v w => σ.result? v item.zero = some w) source items) :
    σ.result? src (Ty.seq item length).zero = some (.seq item length items) := by
  obtain ⟨old, zero, fresh, oldCount⟩ := exists_zero_seq item length
  have kept := zero ▸ σ.start_zero (.seq item length)
  have live : src.elem.isPointer = false := by rw [given]; rfl
  rw [zero, result?_seq_eq_some live kept]
  refine .inr ⟨t, n, source, items, given, fillSequence_of_count (fun n hn => ?_) ?_, rfl⟩
  · exact ⟨count n hn, Nat.le_of_eq (oldCount n hn)⟩
  · rw [fillItems_fresh fresh]
    exact each.imp fun v w converted => σ.nested_eq_done.2 converted

end Settings

end Recast
