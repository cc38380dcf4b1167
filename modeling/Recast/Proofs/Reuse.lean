import Recast.Proofs.Pointers
import Recast.Proofs.Typing

/-!
Destinations that are used again. Replacement starts from the zero value of the type that the
destination shows, and that is the declared type only as long as no untyped field has been given a
value (`Ty.Filled`). So the type of such a value is all that outlasts it.
-/

namespace Recast

open Outcome Recipe

/-! ## What a slot shows -/

/-- The value shows the type of its slot, up to what untyped fields have acquired. -/
def Ty.Shows (t : Ty) (v : Value) : Prop := t ≠ .any → t.Acquires v.type

namespace Ty.Shows

variable {t : Ty} {v : Value} {name : String} {types : List (String × Ty)} {fields : Fields}

theorem self (v : Value) : v.type.Shows v := fun _ => .same v.type

theorem untyped (h : t.Shows .nil) (s : Value) : t.Shows s := by
  intro typed
  cases h typed
  exact absurd rfl typed

theorem ofType {w : Value} (h : t.Shows v) (same : w.type = v.type) : t.Shows w := by
  intro typed
  rw [same]
  exact h typed

theorem eq_struct (h : (Ty.struct name types).Shows v) : ∃ fields, v = .struct name fields := by
  have acquired := h (by simp)
  cases v with
  | struct name' fields =>
    rw [Value.type] at acquired
    cases acquired <;> exact ⟨fields, rfl⟩
  | _ =>
    simp only [Value.type] at acquired
    cases acquired

theorem struct_iff : (Ty.struct name types).Shows (.struct name fields) ↔
    fields.Sorted Ty.Shows (types.map (·.2)) (types.map (·.1)) := by
  have shown : (Value.struct name fields).type =
      .struct name (fields.map fun f => (f.1, f.2.type)) := by
    rw [Value.type, Value.typeFields_eq_map]
  constructor
  · intro h
    have acquired := h (by simp)
    rw [shown] at acquired
    cases acquired with
    | same =>
      refine ⟨by simp, ?_⟩
      rw [List.map_map, List.forall₂_map_right_iff, List.forall₂_same]
      exact fun f _ => self f.2
    | struct names each =>
      rw [Fields.sorted_iff]
      refine ⟨by simpa [Function.comp_def] using names.symm, fun p hp typed => ?_⟩
      apply each (p.2, p.1.1, p.1.2.type) _ typed
      rw [List.zip_map_right, List.mem_map]
      exact ⟨p.swap, mem_zip_swap.2 hp, rfl⟩
  · intro sorted _
    obtain ⟨names, each⟩ := Fields.sorted_iff.1 sorted
    rw [shown]
    apply Ty.Acquires.struct
    · simpa [Function.comp_def] using names.symm
    · intro p hp
      rw [List.zip_map_right, List.mem_map] at hp
      obtain ⟨q, hq, rfl⟩ := hp
      exact each q.swap (mem_zip_swap.2 hq)

theorem any (v : Value) : Ty.any.Shows v := fun typed => absurd rfl typed

theorem struct (h : t.Shows (.struct name fields)) :
    ∃ sorts, fields.Sorted Ty.Shows sorts (fields.map (·.1)) ∧
      ∀ fields', Fields.Sorted Ty.Shows sorts (fields.map (·.1)) fields' →
        t.Shows (.struct name fields') := by
  by_cases typed : t = .any
  · subst typed
    refine ⟨fields.map fun _ => .any, ⟨rfl, ?_⟩, fun fields' _ => any _⟩
    rw [List.forall₂_map_right_iff, List.forall₂_same]
    exact fun f _ => any f.2
  · obtain ⟨types, rfl⟩ : ∃ types, t = .struct name types := by
      have acquired := h typed
      rw [Value.type] at acquired
      cases acquired with
      | same => exact ⟨_, rfl⟩
      | struct => exact ⟨_, rfl⟩
    have sorted := struct_iff.1 h
    refine ⟨types.map (·.2), ⟨rfl, sorted.2⟩, fun fields' sorted' => ?_⟩
    rw [sorted.1] at sorted'
    exact struct_iff.2 sorted'

end Ty.Shows

/-- Slots show their type whatever they are given. Only the fields of structs have types to keep: a
container shows the types that it declares. -/
def acquisition : Discipline Ty where
  Source _ := True
  Holds := Ty.Shows
  Open _ := True
  source_part _ _ := trivial
  source_name _ := trivial
  source_zero _ := trivial
  text := ⟨.any, trivial, .any _⟩
  untyped _ _ h := h.untyped _
  reset h := h.ofType (Ty.type_zero _)
  scalar h same := h.ofType (congrArg Ty.scalar same)
  map h := ⟨.any, .any, trivial, trivial, .any _, .any _, fun _ _ => .any _,
    fun _ _ => h.ofType rfl⟩
  struct h := h.struct.imp fun _ held => ⟨fun _ _ => trivial, held⟩
  seq h := ⟨.any, trivial, .any _, fun _ _ => .any _, fun _ _ _ => h.ofType rfl⟩
  pointer h := ⟨.any, .any _, fun _ _ => h.ofType rfl⟩
  nilPointer h := ⟨.any, .any _, fun _ _ => h.ofType rfl⟩

theorem Settings.convert_shows (σ : Settings) {src dst dst' : Value} {t : Ty} (h : t.Shows dst)
    (converted : σ.convert src dst = .done dst') : t.Shows dst' := by
  have kept : (σ.convert src dst).Ensures True (acquisition.Holds t) :=
    acquisition.convert_keeps _ trivial (Or.inl trivial) h
  exact kept.of_done converted

/-! ## Untyped fields that hold something -/

/-- The slot, or a field in it, is untyped and holds a value. -/
inductive Ty.Filled : Ty → Value → Prop
  | untyped {v : Value} (something : v ≠ .nil) : Filled .any v
  | field {name : String} {types : List (String × Ty)} {fields : Fields}
      {p : (String × Value) × String × Ty} (hp : p ∈ fields.zip types)
      (held : Filled p.2.2 p.1.2) : Filled (.struct name types) (.struct name fields)

theorem Ty.filled_any {v : Value} : Ty.any.Filled v ↔ v ≠ .nil := by
  constructor
  · intro filled
    cases filled
    assumption
  · exact .untyped

theorem Ty.filled_struct {name : String} {types : List (String × Ty)} {fields : Fields} :
    (Ty.struct name types).Filled (.struct name fields) ↔
      ∃ p ∈ fields.zip types, p.2.2.Filled p.1.2 := by
  constructor
  · intro filled
    cases filled with
    | field hp held => exact ⟨_, hp, held⟩
  · rintro ⟨p, hp, held⟩
    exact .field hp held

theorem Fields.types_eq_iff {fields : Fields} {types : List (String × Ty)}
    (names : fields.map (·.1) = types.map (·.1)) :
    Value.typeFields fields = types ↔ ∀ p ∈ fields.zip types, p.1.2.type = p.2.2 := by
  rw [← List.forall₂_eq_eq_eq, List.forall₂_map_left_iff, List.forall₂_map_right_iff,
    List.forall₂_iff_zip] at names
  rw [Value.typeFields_eq_map, ← List.forall₂_eq_eq_eq, List.forall₂_map_left_iff,
    List.forall₂_iff_zip]
  constructor
  · rintro ⟨-, same⟩ p hp
    exact congrArg Prod.snd (same hp)
  · intro each
    exact ⟨names.1, fun hp => Prod.ext (names.2 hp) (each _ hp)⟩

/-- A slot shows the very type that it is of, unless something in it without a type was filled. -/
theorem Ty.Shows.type_eq_iff {t : Ty} {v : Value} (h : t.Shows v) : v.type = t ↔ ¬ t.Filled v := by
  induction t using Ty.partsInduction generalizing v with
  | step t ih =>
    cases t with
    | any =>
      rw [Ty.filled_any, ne_eq, not_not]
      cases v <;> simp [Value.type]
    | struct name types =>
      obtain ⟨fields, rfl⟩ := h.eq_struct
      obtain ⟨names, shows⟩ := Fields.sorted_iff.1 (Ty.Shows.struct_iff.1 h)
      rw [Ty.filled_struct, Value.type, Ty.struct.injEq, Fields.types_eq_iff names]
      simp only [true_and, not_exists, not_and]
      refine forall₂_congr fun p hp => ih p.2.2 ?_ (shows p hp)
      exact List.mem_map_of_mem (List.of_mem_zip hp).2
    | _ =>
      have acquired := h (by simp)
      generalize v.type = u at acquired
      cases acquired
      simp only [true_iff]
      intro filled
      cases filled

/-! ## Conversion into a destination that is used again -/

/-- Two destinations that a source is converted into with the same result, or with the same
failure. -/
def Converter.EndsAlike (c : Converter) (options : CallOptions) (src x y : Value) : Prop :=
  ∃ ending, (c.convertWith options src x).result? = some ending ∧
    (c.convertWith options src y).result? = some ending

theorem Settings.convert_nil_struct {σ : Settings} (hm : σ.mergeMode = .replace) (name : String)
    (fields : Fields) :
    σ.convert .nil (.struct name fields) = .done (Value.struct name fields).type.zero := by
  have reset : σ.start (.struct name fields) = (Value.struct name fields).type.zero :=
    σ.start_of_replace hm _
  rw [σ.convert_eq, step, reset]
  simp [Value.isNil, chosen, byShape, Value.shape, nilToZero, Value.writeElem, Value.reset,
    Value.type, Ty.zero, Ty.typeFields_zeroFields, mapError]

namespace Converter.Standard

variable {c : Converter} {options : CallOptions} (h : c.Standard options)
include h

theorem endsAlike_of_eq {src x y : Value}
    (same : (c.settingsOf options).convert src x = (c.settingsOf options).convert src y) :
    c.EndsAlike options src x y := by
  rw [EndsAlike, h.convertWith_eq, h.convertWith_eq, ← same]
  have ends := (c.settingsOf options).convert_ends src x
  cases outcome : (c.settingsOf options).convert src x with
  | done slot => exact ⟨.ok slot, rfl, rfl⟩
  | failed error slot => exact ⟨.error error, rfl, rfl⟩
  | exhausted => exact absurd outcome ends

/-- A struct that is given nothing shows what it starts from. -/
theorem type_eq_of_endsAlike (hm : (c.settingsOf options).mergeMode = .replace) {t : Ty}
    {d : Value} (shows : t.Shows d) (typed : t ≠ .any)
    (alike : c.EndsAlike options .nil d t.zero) : d.type = t := by
  cases t with
  | any => exact absurd rfl typed
  | struct name types =>
    obtain ⟨fields, rfl⟩ := shows.eq_struct
    obtain ⟨ending, used, fresh⟩ := alike
    rw [h.convertWith_eq, Settings.convert_nil_struct hm] at used
    rw [h.convertWith_eq, Ty.zero, Settings.convert_nil_struct hm, ← used] at fresh
    have zeros : (Ty.struct name types).zero.type.zero = (Value.struct name fields).type.zero :=
      Except.ok.inj (Option.some.inj fresh)
    have shown := congrArg Value.type zeros
    rw [Ty.type_zero, Ty.type_zero, Ty.type_zero] at shown
    exact shown.symm
  | _ =>
    rw [shows.type_eq_iff]
    intro filled
    cases filled

/-- **Replacement forgets what a destination held.** Once a first conversion into a fresh
destination is done, every later one ends as it does from the zero value of the type that is shown
now. That is as it ends from the zero value of the declared type, whatever the later source, exactly
if no untyped field was given a value. -/
theorem replace_forgets (hm : (c.settingsOf options).mergeMode = .replace) {t : Ty}
    (typed : t ≠ .any) {a d : Value} (first : c.convertWith options a t.zero = .done d) :
    (∀ b, c.EndsAlike options b d d.type.zero) ∧ t.Acquires d.type ∧
      ((∀ b, c.EndsAlike options b d t.zero) ↔ ¬ t.Filled d) := by
  have shows : t.Shows d := by
    have fresh : t.Shows t.zero := fun _ => (Ty.type_zero t).symm ▸ .same t
    exact Settings.convert_shows _ fresh (h.convertWith_eq_done.1 first)
  have alike : ∀ b, c.EndsAlike options b d d.type.zero := fun b =>
    h.endsAlike_of_eq (Settings.convert_reset _ hm b d).symm
  refine ⟨alike, shows typed, ?_⟩
  constructor
  · intro forgets
    rw [← shows.type_eq_iff]
    exact h.type_eq_of_endsAlike hm shows typed (forgets .nil)
  · intro empty b
    have same := shows.type_eq_iff.2 empty
    rw [← same]
    exact alike b

end Converter.Standard

/-- The row of an earlier source leaves nothing behind, where what it filled has a type. -/
theorem Converter.Standard.replace_forgets_row :
    let row : Ty := .struct "Row" [("ID", .scalar (.int .int)), ("Note", .any)]
    let used : Value := .struct "Row" [("ID", .int .int 7), ("Note", .nil)]
    let replacing : CallOptions := { mergeMode := some .replace }
    ({} : Converter).convertWith replacing (.map .string .string [(.string "id", .string "7")])
        row.zero = .done used ∧
      ∀ b, ({} : Converter).EndsAlike replacing b used row.zero := by
  intro row used replacing
  have standard : ({} : Converter).Standard replacing := ⟨rfl, rfl⟩
  have first : ({} : Converter).convertWith replacing
      (.map .string .string [(.string "id", .string "7")]) row.zero = .done used := by rfl
  have typed : row ≠ .any := by simp [row]
  refine ⟨first, (standard.replace_forgets rfl typed first).2.2.2 ?_⟩
  exact (Ty.Shows.self used).type_eq_iff.1 rfl

/-- An untyped field that was given a text turns the number of a later source into a text. In a
fresh destination it stays a number. -/
theorem Converter.Standard.replace_keeps_acquired :
    let row : Ty := .struct "Row" [("Note", .any)]
    let used : Value := .struct "Row" [("Note", .string "hello")]
    let text : Value := .map .string .string [(.string "note", .string "hello")]
    let number : Value := .map .string (.scalar (.int .int)) [(.string "note", .int .int 5)]
    let replacing : CallOptions := { mergeMode := some .replace }
    ({} : Converter).convertWith replacing text row.zero = .done used ∧
      ({} : Converter).convertWith replacing number used =
        .done (.struct "Row" [("Note", .string "5")]) ∧
      ({} : Converter).convertWith replacing number row.zero =
        .done (.struct "Row" [("Note", .int .int 5)]) ∧
      ¬ ({} : Converter).EndsAlike replacing number used row.zero := by
  intro row used text number replacing
  have first : ({} : Converter).convertWith replacing text row.zero = .done used := by rfl
  have again : ({} : Converter).convertWith replacing number used =
      .done (.struct "Row" [("Note", .string "5")]) := by rfl
  have fresh : ({} : Converter).convertWith replacing number row.zero =
      .done (.struct "Row" [("Note", .int .int 5)]) := by rfl
  refine ⟨first, again, fresh, ?_⟩
  rintro ⟨ending, he, he'⟩
  rw [again] at he
  rw [fresh, ← he] at he'
  simp [result?] at he'

end Recast
