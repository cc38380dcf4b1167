import Recast.Conversion.Extract
import Recast.Proofs.Failures
import Recast.Proofs.Keys
import Recast.Proofs.Typing

/-!
Reading native types. A value that conforms to the type of a native type can be read
(`Native.exists_ofValue`). Conversion by the standard recipes keeps slots conforming to their types,
whatever the source (`Settings.convert_conforms`), so what was converted into the zero value of a
native type is never found to be something else (`Converter.Standard.convertTo_reads`).
-/

namespace Recast

open Recipe

/-! ## Reading lists and entries -/

namespace Except

variable {ε α β γ : Type}

theorem bind_eq_ok {e : Except ε α} {f : α → Except ε β} {y : β} :
    e >>= f = .ok y ↔ ∃ x, e = .ok x ∧ f x = .ok y := by
  cases e <;> simp [bind, Except.bind]

theorem mapM_eq_ok {f : α → Except ε β} {xs : List α} {ys : List β} :
    xs.mapM f = .ok ys ↔ List.Forall₂ (fun x y => f x = .ok y) xs ys := by
  induction xs generalizing ys with
  | nil =>
    rw [List.mapM_nil, List.forall₂_nil_left_iff]
    exact ⟨fun h => (Except.ok.inj h).symm, fun h => congrArg _ h.symm⟩
  | cons x xs ih =>
    simp only [List.mapM_cons, bind_eq_ok, List.forall₂_cons_left_iff, ih]
    constructor
    · rintro ⟨y, head, ys, tail, same⟩
      exact ⟨y, ys, head, tail, (Except.ok.inj same).symm⟩
    · rintro ⟨y, ys, head, tail, rfl⟩
      exact ⟨y, head, ys, tail, rfl⟩

end Except

namespace Scalar

theorem carrier?_ofCarrier (k : ScalarKind) (x : k.Carrier) :
    (ofCarrier k x).carrier? k = some x := by
  cases k with
  | bool | string => rfl
  | int k | float k => exact dif_pos rfl

/-- A scalar is read as the kind that it is of. -/
theorem carrier?_eq_some {k : ScalarKind} {s : Scalar} {x : k.Carrier} :
    s.carrier? k = some x ↔ s = ofCarrier k x := by
  constructor
  · intro h
    cases k with
    | bool | string =>
      cases s <;> cases h
      rfl
    | int k =>
      cases s <;> simp only [carrier?, reduceCtorEq] at h
      split at h
      · next same =>
        subst same
        cases h
        rfl
      · cases h
    | float k =>
      cases s <;> simp only [carrier?, reduceCtorEq] at h
      split at h
      · next same =>
        subst same
        cases h
        rfl
      · cases h
  · rintro rfl
    exact carrier?_ofCarrier k x

end Scalar

namespace Native

theorem readEntries_eq_ok {α β : Type} {key : Value → Except ConversionError α}
    {value : Value → Except ConversionError β} {insert : α → β → List (α × β) → List (α × β)}
    {before after : List (α × β)} {entries : Entries} :
    readEntries key value insert before entries = .ok after ↔
      ∃ read : List (α × β),
        List.Forall₂ (fun e x => key e.1 = .ok x.1 ∧ value e.2 = .ok x.2) entries read ∧
        read.foldl (fun before x => insert x.1 x.2 before) before = after := by
  induction entries generalizing before with
  | nil => simp [readEntries]
  | cons e entries ih =>
    simp only [readEntries, Except.bind_eq_ok, ih, List.forall₂_cons_left_iff]
    constructor
    · rintro ⟨k, hk, v, hv, read, rest, rfl⟩
      exact ⟨(k, v) :: read, ⟨(k, v), read, ⟨hk, hv⟩, rest, rfl⟩, rfl⟩
    · rintro ⟨_, ⟨⟨k, v⟩, read, ⟨hk, hv⟩, rest, rfl⟩, rfl⟩
      exact ⟨k, hk, v, hv, read, rest, rfl⟩

/-! ## What can be read -/

variable {t k v : Native}

theorem ofValue_scalar {k : ScalarKind} {s : Scalar} {x : k.Carrier} :
    (scalar k).ofValue (.scalar s) = .ok x ↔ s = .ofCarrier k x := by
  rw [ofValue_scalar_eq, ← Scalar.carrier?_eq_some]
  cases s.carrier? k with
  | none => simp
  | some y => exact ⟨fun h => congrArg some (Except.ok.inj h), fun h => by cases h; rfl⟩

theorem ofValue_seq {item : Ty} {length : Option Nat} {items : List Value}
    {xs : List t.Carrier} : (list t).ofValue (.seq item length items) = .ok xs ↔
      List.Forall₂ (fun v x => t.ofValue v = .ok x) items xs :=
  Except.mapM_eq_ok

theorem ofValue_pointer {pointee : Ty} {target : Value} {x : t.Carrier} :
    (option t).ofValue (.pointer pointee target) = .ok (some x) ↔ t.ofValue target = .ok x := by
  have unfolded : (option t).ofValue (.pointer pointee target) =
      (t.ofValue target).map some := rfl
  rw [unfolded]
  cases t.ofValue target with
  | error => simp [Except.map]
  | ok y =>
    refine ⟨fun h => ?_, fun h => by cases h; rfl⟩
    cases h
    rfl

/-- The entries that are read, one after the other. -/
def ReadsEntries (k v : Native) (entries : Entries) (read : List (k.Carrier × v.Carrier)) : Prop :=
  List.Forall₂ (fun e x => k.ofValue e.1 = .ok x.1 ∧ v.ofValue e.2 = .ok x.2) entries read

theorem ofValue_hashMap {key value : Ty} {entries : Entries} {x : List (k.Carrier × v.Carrier)} :
    (hashMap k v).ofValue (.map key value entries) = .ok x ↔
      ∃ read, ReadsEntries k v entries read ∧ putAll (insertAtEnd k.compare) read = x :=
  readEntries_eq_ok

theorem ofValue_orderedMap {key value : Ty} {entries : Entries}
    {x : List (k.Carrier × v.Carrier)} :
    (orderedMap k v).ofValue (.map key value entries) = .ok x ↔
      ∃ read, ReadsEntries k v entries read ∧ putAll (insertByKey k.compare) read = x :=
  readEntries_eq_ok

theorem exists_readsEntries {entries : Entries} (keys : ∀ e ∈ entries, ∃ x, k.ofValue e.1 = .ok x)
    (values : ∀ e ∈ entries, ∃ x, v.ofValue e.2 = .ok x) :
    ∃ read, ReadsEntries k v entries read := by
  refine exists_forall₂ fun e he => ?_
  obtain ⟨x, hx⟩ := keys e he
  obtain ⟨y, hy⟩ := values e he
  exact ⟨(x, y), hx, hy⟩

/-- **What conforms to a native type can be read.** -/
theorem exists_ofValue {t : Native} {v : Value} (h : v.Conforms t.type) :
    ∃ x, t.ofValue v = .ok x := by
  induction t generalizing v with
  | scalar k =>
    cases h with
    | scalar s =>
      obtain ⟨x, hx⟩ : ∃ x, s = .ofCarrier s.kind x := by
        cases s <;> exact ⟨_, rfl⟩
      exact ⟨x, ofValue_scalar.2 hx⟩
  | value => exact ⟨v, rfl⟩
  | list t ih =>
    cases h with
    | seq _ each =>
      obtain ⟨xs, read⟩ := exists_forall₂ fun v hv => ih (each v hv)
      exact ⟨xs, ofValue_seq.2 read⟩
  | option t ih =>
    cases h with
    | pointer each =>
      obtain ⟨x, read⟩ := ih each
      exact ⟨some x, ofValue_pointer.2 read⟩
    | nilPointer => exact ⟨none, rfl⟩
  | hashMap k v ihKey ihValue =>
    cases h with
    | map keys values =>
      obtain ⟨read, reads⟩ := exists_readsEntries (fun e he => ihKey (keys e he)) fun e he =>
        ihValue (values e he)
      exact ⟨_, ofValue_hashMap.2 ⟨read, reads, rfl⟩⟩
  | orderedMap k v ihKey ihValue =>
    cases h with
    | map keys values =>
      obtain ⟨read, reads⟩ := exists_readsEntries (fun e he => ihKey (keys e he)) fun e he =>
        ihValue (values e he)
      exact ⟨_, ofValue_orderedMap.2 ⟨read, reads, rfl⟩⟩

end Native

/-! ## Slots that conform to a type -/

open Outcome

namespace Value.Conforms

variable {t : Ty}

theorem parts_of_map {key value : Ty} {old : Entries} (h : (Value.map key value old).Conforms t) :
    ∃ k v, key.zero.Conforms k ∧ value.zero.Conforms v ∧ (∀ e ∈ old, e.2.Conforms v) ∧
      ∀ entries : Entries, (∀ e ∈ entries, e.1.Conforms k ∧ e.2.Conforms v) →
        (Value.map key value entries).Conforms t := by
  cases h with
  | any => exact ⟨.any, .any, .any _, .any _, fun e _ => .any e.2, fun _ _ => .any _⟩
  | map keys values =>
    refine ⟨key, value, conforms_zero key, conforms_zero value, values, fun entries each => ?_⟩
    exact .map (fun e he => (each e he).1) fun e he => (each e he).2

theorem parts_of_struct {name : String} {old : Fields} (h : (Value.struct name old).Conforms t) :
    ∃ sorts, Fields.Sorted (fun t v => v.Conforms t) sorts (old.map (·.1)) old ∧
      ∀ fields, Fields.Sorted (fun t v => v.Conforms t) sorts (old.map (·.1)) fields →
        (Value.struct name fields).Conforms t := by
  cases h with
  | any =>
    refine ⟨old.map fun _ => .any, ⟨rfl, ?_⟩, fun _ _ => .any _⟩
    rw [List.forall₂_map_right_iff, List.forall₂_same]
    exact fun f _ => .any f.2
  | @struct _ _ types names slots =>
    have held := conforms_struct_iff.1 (@Value.Conforms.struct name _ _ names slots)
    refine ⟨types.map (·.2), names ▸ held, fun fields each => ?_⟩
    exact conforms_struct_iff.2 (names ▸ each)

theorem parts_of_seq {item : Ty} {length : Option Nat} {old : List Value}
    (h : (Value.seq item length old).Conforms t) :
    ∃ u, item.zero.Conforms u ∧ (∀ v ∈ old, v.Conforms u) ∧
      ∀ items : List Value, (∀ v ∈ items, v.Conforms u) →
        (∀ n, length = some n → old.length = n → items.length = n) →
          (Value.seq item length items).Conforms t := by
  cases h with
  | any => exact ⟨.any, .any _, fun v _ => .any v, fun _ _ _ => .any _⟩
  | seq count each =>
    refine ⟨item, conforms_zero item, each, fun items each count' => ?_⟩
    exact .seq (fun n hn => count' n hn (count n hn)) each

theorem target {pointee : Ty} {target : Value} (h : (Value.pointer pointee target).Conforms t) :
    ∃ u, target.Conforms u ∧
      ∀ target' : Value, target'.Conforms u → (Value.pointer pointee target').Conforms t := by
  cases h with
  | any => exact ⟨.any, .any _, fun _ _ => .any _⟩
  | pointer each => exact ⟨pointee, each, fun _ => .pointer⟩

theorem target_of_nilPointer {pointee : Ty} (h : (Value.nilPointer pointee).Conforms t) :
    ∃ u, pointee.zero.Conforms u ∧
      ∀ target : Value, target.Conforms u → (Value.pointer pointee target).Conforms t := by
  cases h with
  | any => exact ⟨.any, .any _, fun _ _ => .any _⟩
  | nilPointer => exact ⟨pointee, conforms_zero pointee, fun _ => .pointer⟩

end Value.Conforms

/-- Slots are sorted by a type that they conform to. What is in a slot of no type is free, so
nothing is asked of the source. -/
def conforming : Discipline Ty where
  Source _ := True
  Holds t v := v.Conforms t
  Open _ := True
  source_part _ _ := trivial
  source_name _ := trivial
  source_zero _ := trivial
  text := ⟨.string, trivial, .scalar _⟩
  untyped _ _ h := by
    cases h
    exact .any _
  reset h := h.reset
  scalar h same := by
    cases h with
    | any => exact .any _
    | scalar => exact same ▸ .scalar _
  map h := by
    obtain ⟨k, v, held⟩ := h.parts_of_map
    exact ⟨k, v, trivial, trivial, held⟩
  struct h := h.parts_of_struct.imp fun _ held => ⟨fun _ _ => trivial, held⟩
  seq h := h.parts_of_seq.imp fun _ held => ⟨trivial, held⟩
  pointer h := h.target
  nilPointer h := h.target_of_nilPointer

/-- **A slot keeps conforming to its type**, whatever it is converted from. -/
theorem Settings.convert_conforms (σ : Settings) {src dst dst' : Value} {t : Ty}
    (hd : dst.Conforms t) (h : σ.convert src dst = .done dst') : dst'.Conforms t := by
  have kept : (σ.convert src dst).Ensures True (conforming.Holds t) :=
    conforming.convert_keeps _ trivial (.inl trivial) hd
  exact kept.of_done h

/-! ## Calls of the converter -/

/-- The root cause is a value of another type than the one that was to be read. -/
def ConversionError.isUnexpected (error : ConversionError) : Bool :=
  match error.rootCause with
  | .unexpected .. => true
  | _ => false

theorem Settings.Documented.isUnexpected {σ : Settings} {s d : Value} {error : ConversionError}
    (h : σ.Documented s d error) : error.isUnexpected = false := by
  unfold ConversionError.isUnexpected
  cases h with
  | noRecipe root | unknownField root | literal root | tooMany root | stray root => rw [root]

namespace Converter.Standard

variable {c : Converter} {options : CallOptions} (h : c.Standard options)
include h

theorem conforms_of_done {src dst dst' : Value} {t : Ty} (hd : dst.Conforms t)
    (done : c.convertWith options src dst = .done dst') : dst'.Conforms t :=
  Settings.convert_conforms _ hd (h.convertWith_eq_done.1 done)

theorem isUnexpected_of_failed {src dst left : Value} {error : ConversionError}
    (failed : c.convertWith options src dst = .failed error left) : error.isUnexpected = false := by
  rw [h.convertWith_eq] at failed
  cases outcome : (c.settingsOf options).convert src dst with
  | done | exhausted => simp [outcome, rollback, useFor] at failed
  | failed cause slot =>
    simp only [outcome, rollback, useFor, Outcome.failed.injEq] at failed
    obtain ⟨s, d, -, documented, inner, _, _, root⟩ :=
      Settings.failure_documented (failed.1 ▸ outcome)
    exact documented.isUnexpected

end Converter.Standard

namespace Converter.Standard

variable {c : Converter} (h : c.Standard {})
include h

/-- A conversion into the zero value of a native type ends in a value that can be read, or for
another reason than its type. -/
theorem convert_readable (t : Native) (src : Value) :
    (∃ v x, c.convert src t.type.zero = .done v ∧ t.ofValue v = .ok x) ∨
      ∃ error left, c.convert src t.type.zero = .failed error left ∧
        error.isUnexpected = false := by
  cases outcome : c.convert src t.type.zero with
  | done v =>
    obtain ⟨x, read⟩ := Native.exists_ofValue
      (h.conforms_of_done (Value.conforms_zero t.type) outcome)
    exact .inl ⟨v, x, rfl, read⟩
  | failed error left => exact .inr ⟨error, left, rfl, h.isUnexpected_of_failed outcome⟩
  | exhausted => exact absurd outcome (h.convertWith_ends src t.type.zero)

/-- **What was converted for a native type can be read as that type**, from whatever source. What
fails is the conversion itself or the path to the source, and never for a value of an unexpected
type. -/
theorem convertTo_reads (t : Native) (src : Value) :
    (∀ v, c.convert src t.type.zero = .done v →
      ∃ x, t.ofValue v = .ok x ∧ c.convertTo t src = some (.ok x)) ∧
    (∃ result, c.convertTo t src = some result ∧
      ∀ error, result = .error error → error.isUnexpected = false) ∧
    ∀ expression, ∃ result, c.extractAs t src expression = some result ∧
      ∀ error, result = .error (.conversion error) → error.isUnexpected = false := by
  refine ⟨fun v done => ?_, ?_, fun expression => ?_⟩
  · rcases h.convert_readable t src with ⟨w, x, done', read⟩ | ⟨_, _, failed, -⟩
    · obtain rfl : v = w := by simpa [done] using done'
      refine ⟨x, read, ?_⟩
      simp [convertTo, done, result?, Except.bind, read]
    · cases done.symm.trans failed
  · rcases h.convert_readable t src with ⟨v, x, done, read⟩ | ⟨error, left, failed, other⟩
    · refine ⟨.ok x, ?_, by simp⟩
      simp [convertTo, done, result?, Except.bind, read]
    · refine ⟨.error error, ?_, by simpa using other⟩
      simp [convertTo, failed, result?, Except.bind]
  · cases found : src.find? expression {} with
    | error error =>
      refine ⟨.error (.path error), ?_, by simp⟩
      simp [extractAs, extract, found, result?, Except.bind]
    | ok found? =>
      rcases h.convert_readable t (found?.getD .nil) with
        ⟨v, x, done, read⟩ | ⟨error, left, failed, other⟩
      · refine ⟨.ok x, ?_, by simp⟩
        simp [extractAs, extract, found, done, mapError, result?, Except.bind, Except.mapError,
          read]
      · refine ⟨.error (.conversion error), ?_, by simpa using other⟩
        simp [extractAs, extract, found, failed, mapError, result?, Except.bind]

end Converter.Standard

/-- An array that declares a truth value and holds a text and a nil pointer instead. -/
theorem Converter.Standard.convertTo_reads_illTyped :
    let c : Converter := {}
    let t : Native := .list (.option (.scalar (.int .int)))
    let src : Value := .seq (.scalar .bool) (some 1)
      [.string "7", .nilPointer (.scalar (.int .int))]
    let v : Value := .seq (.pointer (.scalar (.int .int))) none
      [.pointer (.scalar (.int .int)) (.int .int 7), .pointer (.scalar (.int .int)) (.int .int 0)]
    c.Standard {} ∧ ¬src.WellTyped ∧ c.convert src t.type.zero = .done v ∧
      (∃ x, t.ofValue v = .ok x ∧ c.convertTo t src = some (.ok x)) ∧
      ∃ result, c.extractAs t src "0.name" = some result ∧
        ∀ error, result = .error (.conversion error) → error.isUnexpected = false := by
  intro c t src v
  have standard : c.Standard {} := ⟨rfl, rfl⟩
  have converted : c.convert src t.type.zero = .done v := rfl
  have illTyped : ¬src.WellTyped := by
    rw [Value.wellTyped_seq]
    rintro ⟨count, -⟩
    cases count 1 rfl
  obtain ⟨reads, -, extracts⟩ := standard.convertTo_reads t src
  exact ⟨standard, illTyped, converted, reads v converted, extracts "0.name"⟩

end Recast
