import Recast.Proofs.Typing
import Recast.Recipe.Actions

/-!
What a conversion that fails leaves in its slot. Structs, maps and pointers keep the sorts of what
is in them at every point where they can be left. A sequence does not: its old items are taken out
one after another, and when an item fails, those taken out by then are nil (`Value.Emptied`). So a
failure leaves a typed slot behind, except for one sequence in it (`Discipline.convert_leaves`).
-/

namespace Recast

open Outcome Recipe

/-! ## Sequences that were left halfway -/

/-- The items that are left when some of the old ones, from the front, were taken out. -/
def TakenOut (old left : List Value) : Prop :=
  ∃ k ≤ old.length, left = List.replicate k .nil ++ old.drop k

namespace TakenOut

theorem none (old : List Value) : TakenOut old old := ⟨0, Nat.zero_le _, rfl⟩

theorem cons {old left : List Value} (h : TakenOut old left) (v : Value) :
    TakenOut (v :: old) (.nil :: left) := by
  obtain ⟨k, bound, rfl⟩ := h
  exact ⟨k + 1, Nat.succ_le_succ bound, by simp [List.replicate_succ]⟩

end TakenOut

/-- The same value, but for one sequence that lacks items at the front. Fields and live pointers
lead to it. -/
inductive Value.Emptied : Value → Value → Prop
  | same (v : Value) : Emptied v v
  | items {item : Ty} {length : Option Nat} {old left : List Value} (taken : TakenOut old left) :
      Emptied (.seq item length old) (.seq item length left)
  | field {name field : String} {front back : Fields} {v left : Value} (held : Emptied v left) :
      Emptied (.struct name (front ++ (field, v) :: back))
        (.struct name (front ++ (field, left) :: back))
  | pointer {pointee : Ty} {v left : Value} (target : Emptied v left) :
      Emptied (.pointer pointee v) (.pointer pointee left)

namespace Value.Emptied

theorem head {name field : String} {v left : Value} (h : v.Emptied left) (fields : Fields) :
    (Value.struct name ((field, v) :: fields)).Emptied (.struct name ((field, left) :: fields)) :=
  @Emptied.field name field [] fields v left h

theorem cons {name : String} {fields left : Fields}
    (h : (Value.struct name fields).Emptied (.struct name left)) (f : String × Value) :
    (Value.struct name (f :: fields)).Emptied (.struct name (f :: left)) := by
  generalize whole : Value.struct name fields = v at h
  generalize rest : Value.struct name left = w at h
  cases h with
  | same =>
    cases whole
    cases rest
    exact .same _
  | @field _ field front back v left held =>
    cases whole
    cases rest
    exact @Emptied.field name field (f :: front) back v left held
  | _ => cases whole

/-- A sequence still declares the type of its items. -/
theorem type_eq {v left : Value} (h : v.Emptied left) : left.type = v.type := by
  induction h with
  | same | items | pointer => rfl
  | field _ ih => simp [type, typeFields_eq_map, ih]

end Value.Emptied

section
variable {nested : Value → Value → Outcome Cause Value}

/-- The item that fails was taken out as well. -/
theorem Recipe.fillItems_leaves (item : Ty) (old source : List Value) :
    (fillItems nested item old source).Leaves (TakenOut old) := by
  induction source generalizing old with
  | nil => simp [fillItems, Leaves]
  | cons v source ih =>
    cases old with
    | nil =>
      rw [fillItems]
      apply Leaves.useFor (.none [])
      intro slot _
      cases fillItems nested item [] source with
      | failed => exact .none []
      | _ => trivial
    | cons o olds =>
      rw [fillItems]
      apply Leaves.useFor ((TakenOut.none olds).cons o)
      intro slot _
      have rest := ih olds
      cases filled : fillItems nested item olds source with
      | failed error left =>
        rw [filled] at rest
        exact TakenOut.cons rest o
      | _ => trivial

theorem Recipe.fillSequence_leaves (item : Ty) (length : Option Nat) (old source : List Value) :
    (fillSequence nested item length old source).Leaves (TakenOut old) := by
  have fill : (fillItems nested item old source).Leaves (TakenOut old) :=
    fillItems_leaves item old source
  cases length with
  | none => exact fill
  | some n =>
    rw [fillSequence]
    split
    · exact .none old
    · cases filled : fillItems nested item old source with
      | failed => rwa [filled] at fill
      | _ => trivial

/-- A map is left as it was. -/
theorem Recipe.fillMap_leaves (key value : Ty) (old pairs : Entries) :
    (fillMap nested key value old pairs).Leaves (· = old) := by
  unfold fillMap
  refine Leaves.useFor rfl ?_
  intro r _
  trivial

end

/-! ## What is left of a slot of a sort -/

namespace Discipline

variable {ι : Type} (D : Discipline ι)

/-- The slot is what such a slot may hold, but for one sequence that was left halfway. -/
def Remains (i : ι) (left : Value) : Prop := ∃ v, D.Holds i v ∧ v.Emptied left

/-- The same for the fields of a struct. -/
def FieldsRemain (struct : String) (sorts : List ι) (names : List String) (left : Fields) : Prop :=
  ∃ fields, Fields.Sorted D.Holds sorts names fields ∧
    (Value.struct struct fields).Emptied (.struct struct left)

variable {D}

theorem Remains.held {i : ι} {v : Value} (h : D.Holds i v) : D.Remains i v := ⟨v, h, .same v⟩

theorem FieldsRemain.held {struct : String} {sorts : List ι} {names : List String} {fields : Fields}
    (h : Fields.Sorted D.Holds sorts names fields) : D.FieldsRemain struct sorts names fields :=
  ⟨fields, h, .same _⟩

variable {σ : Settings} {f : Value → Value → Outcome ConversionError Value} {src : Value}

theorem assignField_leaves {nested : Value → Value → Outcome Cause Value} {skip : Bool}
    {struct name : String} {v : Value} {sorts : List ι} {names : List String} {fields : Fields}
    (hn : ∀ i ∈ sorts, ∀ d, D.Holds i d → (nested v d).Leaves (D.Remains i))
    (h : Fields.Sorted D.Holds sorts names fields) :
    (assignField nested skip struct name v fields).Leaves (D.FieldsRemain struct sorts names) := by
  obtain ⟨rfl, held⟩ := h
  induction held with
  | nil =>
    rw [assignField]
    split
    · trivial
    · exact .held ⟨rfl, .nil⟩
  | @cons field i fields sorts head tail ih =>
    obtain ⟨headField, tailFields⟩ := List.forall_mem_cons.1 hn
    rw [assignField]
    split
    · refine ((headField field.2 head).mono fun left remains => ?_).map
      obtain ⟨w, held, emptied⟩ := remains
      exact ⟨(field.1, w) :: fields, ⟨rfl, .cons held tail⟩, emptied.head fields⟩
    · refine ((ih tailFields).mono fun left remains => ?_).map
      obtain ⟨ws, ⟨names, held⟩, emptied⟩ := remains
      refine ⟨field :: ws, ⟨?_, .cons head held⟩, emptied.cons field⟩
      simp only [List.map_cons, names]

theorem Remains.pointer {i j : ι} {pointee : Ty} {left : Value} (h : D.Remains j left)
    (close : ∀ target, D.Holds j target → D.Holds i (.pointer pointee target)) :
    D.Remains i (.pointer pointee left) := by
  obtain ⟨w, held, emptied⟩ := h
  exact ⟨.pointer pointee w, close w held, .pointer emptied⟩

theorem writeElem_leaves {write : Value → Outcome Cause Value} {dst : Value} {i : ι}
    (h : D.Holds i dst)
    (hw : ∀ j, D.Holds j dst.elem → (write dst.elem).Leaves (D.Remains j)) :
    (dst.writeElem write).Leaves (D.Remains i) := by
  fun_induction Value.writeElem write dst generalizing i with
  | case1 pointee target ih =>
    obtain ⟨j, hj, close⟩ := D.pointer h
    exact ((ih hj hw).mono fun left remains => remains.pointer close).map
  | case2 v hv =>
    rw [Value.elem_eq_self hv] at hw
    exact hw i h

theorem writeFields_leaves {write : String → Fields → Outcome Cause Fields} {dst : Value} {i : ι}
    (h : D.Holds i dst)
    (hw : ∀ name fields sorts names, (∀ j ∈ sorts, D.Open j) →
      Fields.Sorted D.Holds sorts names fields →
      (write name fields).Leaves (D.FieldsRemain name sorts names)) :
    (writeFields write dst).Leaves (D.Remains i) := by
  apply writeElem_leaves h
  intro j hj
  cases hd : dst.elem with
  | struct name old =>
    rw [hd] at hj
    obtain ⟨sorts, opens, held, close⟩ := D.struct hj
    refine ((hw name old sorts _ opens held).mono fun left remains => ?_).map
    obtain ⟨fields, sorted, emptied⟩ := remains
    exact ⟨.struct name fields, close fields sorted, emptied⟩
  | _ =>
    rw [hd] at hj
    exact .held hj

theorem fillTarget_leaves {scope : Scope} {pairs : Entries} {dst : Value} {i : ι}
    (h : D.Holds i dst) : (fillTarget scope pairs dst).Leaves (D.Remains i) := by
  apply writeElem_leaves h
  intro j hj
  cases hd : dst.elem with
  | map key value old =>
    rw [hd] at hj
    refine ((fillMap_leaves key value old pairs).mono ?_).map
    rintro _ rfl
    exact .held hj
  | _ =>
    rw [hd] at hj
    exact .held hj

theorem sequenceToSequence_leaves {scope : Scope} {dst : Value} {i : ι} (h : D.Holds i dst) :
    (sequenceToSequence scope src dst).Leaves (D.Remains i) := by
  unfold sequenceToSequence
  split
  · apply writeElem_leaves h
    intro j hj
    cases hd : dst.elem with
    | seq item length old =>
      rw [hd] at hj
      refine ((fillSequence_leaves item length old _).mono fun left taken => ?_).map
      exact ⟨.seq item length old, hj, .items taken⟩
    | _ =>
      rw [hd] at hj
      exact .held hj
  · exact .held h

variable (hf : ∀ s d i, s.height < src.height → D.Source s → D.Open i → D.Holds i d →
  (f s d).Ensures True (D.Holds i) ∧ (f s d).Leaves (D.Remains i))
include hf

theorem assignField_keeps {s : Value} (lower : s.height < src.height) (hs : D.Source s)
    {struct name : String} {sorts : List ι} {names : List String} {fields : Fields}
    (opens : ∀ j ∈ sorts, D.Open j) (h : Fields.Sorted D.Holds sorts names fields) :
    let o := assignField (Scope.nested ⟨σ, f⟩) σ.skipUnknownFields struct name s fields
    o.Ensures True (Fields.Sorted D.Holds sorts names) ∧
      o.Leaves (D.FieldsRemain struct sorts names) := by
  have nested : ∀ j ∈ sorts, ∀ d, D.Holds j d →
      (f s d).Ensures True (D.Holds j) ∧ (f s d).Leaves (D.Remains j) :=
    fun j hj d hd => hf s d j lower hs (opens j hj) hd
  constructor
  · exact assignField_ensures (fun j hj d hd => (nested j hj d hd).1.mapError _) h
  · exact assignField_leaves (fun j hj d hd => (nested j hj d hd).2.mapError _) h

theorem structToStruct_leaves {dst : Value} {i : ι} (hs : D.Source src) (h : D.Holds i dst) :
    (structToStruct ⟨σ, f⟩ src dst).Leaves (D.Remains i) := by
  unfold structToStruct
  cases he : src.elem with
  | struct name source =>
    apply writeFields_leaves h
    intro name fields sorts names opens held
    refine Leaves.foldSteps (fun field hfield slot hslot => ?_) held
    obtain ⟨lower, source⟩ := D.source_field hs he hfield
    exact assignField_keeps hf lower source opens hslot
  | _ => exact .held h

theorem mapToStruct_leaves {dst : Value} {i : ι} (hs : D.Source src) (h : D.Holds i dst) :
    (mapToStruct ⟨σ, f⟩ src dst).Leaves (D.Remains i) := by
  unfold mapToStruct
  cases he : src.elem with
  | map key value entries =>
    apply writeFields_leaves h
    intro name fields sorts names opens held
    refine Leaves.foldSteps (fun entry hentry slot hslot => ?_) held
    obtain ⟨⟨lowerKey, sourceKey⟩, lower, source⟩ := D.source_entry hs he hentry
    obtain ⟨t, openText, text⟩ := D.text
    have key := (hf _ _ _ lowerKey sourceKey openText text).1
    constructor
    · refine (key.mapError _).useFor fun name _ => ?_
      exact (assignField_keeps hf lower source opens hslot).1
    · refine Leaves.useFor (.held hslot) fun name _ => ?_
      exact (assignField_keeps hf lower source opens hslot).2
  | _ => exact .held h

/-- Each standard action that fails leaves the slot of its sort, but for one sequence. -/
theorem chosen_leaves {dst : Value} {action : Action} {i : ι} (hs : D.Source src)
    (h : D.Holds i dst) (found : chosen src dst = some action) :
    (action ⟨σ, f⟩ src dst).Leaves (D.Remains i) := by
  rcases exact_or_byShape found with ⟨s, d, rfl, rfl, rfl⟩ | ⟨s, old, rfl, rfl, rfl⟩ |
    ⟨items, s, rfl, rfl, rfl⟩ | ⟨items, s, rfl, rfl, rfl⟩ | found
  · exact Leaves.ofExcept (.held h) _
  · trivial
  · exact Leaves.ofExcept (.held h) _
  · exact Leaves.ofExcept (.held h) _
  · unfold byShape at found
    split at found <;> cases found
    · exact writeElem_leaves h fun _ _ => trivial
    · exact writeElem_leaves h fun _ _ => trivial
    · unfold mapToMap
      split
      · exact fillTarget_leaves h
      · exact .held h
    · unfold structToMap
      split
      · exact fillTarget_leaves h
      · exact .held h
    · exact mapToStruct_leaves hf hs h
    · exact structToStruct_leaves hf hs h
    · exact sequenceToSequence_leaves h

omit hf

theorem follow_leaves {dst : Value} {i : ι} (hs : D.Source src)
    (ho : D.Open i ∨ src.isPointer = false) (h : D.Holds i dst)
    (nested : ∀ s d j, D.Source s → D.Open j ∨ s.isPointer = false → D.Holds j d →
      (f s d).Leaves (D.Remains j)) :
    (Settings.follow f src dst).Leaves (D.Remains i) := by
  unfold Settings.follow
  split
  · next pointee target =>
    have openSlot := ho.resolve_right (by simp [Value.isPointer])
    have source := D.source_part hs (List.mem_singleton_self target)
    exact nested target _ i source (Or.inl openSlot) h
  · next pointee =>
    have openSlot := ho.resolve_right (by simp [Value.isPointer])
    exact nested _ _ i (D.source_zero hs) (Or.inl openSlot) h
  · next pointee target notLive notNil =>
    have plain := Value.isPointer_eq_false notLive notNil
    obtain ⟨j, hj, close⟩ := D.pointer h
    exact ((nested _ _ j hs (Or.inr plain) hj).mono fun left remains => remains.pointer close).map
  · next pointee notLive notNil =>
    have plain := Value.isPointer_eq_false notLive notNil
    obtain ⟨j, hj, close⟩ := D.nilPointer h
    exact ((nested _ _ j hs (Or.inr plain) hj).mono fun left remains => remains.pointer close).map
  · exact .held h

/-- **A conversion that fails leaves its slot to the sort**, but for one sequence that was left
halfway, whichever budget it has. -/
theorem convert_leaves (budget : Nat) {src dst : Value} {i : ι} (hs : D.Source src)
    (ho : D.Open i ∨ src.isPointer = false) (h : D.Holds i dst) :
    ((Context.standard σ).convert budget src dst).Leaves (D.Remains i) := by
  induction budget generalizing src dst i with
  | zero => trivial
  | succ budget ih =>
    have started : D.Holds i (σ.start dst) := D.holds_start h
    rw [Settings.convert_succ]
    unfold Settings.step
    split
    · trivial
    · split
      · next action found =>
        refine (chosen_leaves ?_ hs started found).mapError _
        intro s d j _ source openSlot hd
        constructor
        · exact D.convert_keeps budget source (Or.inl openSlot) hd
        · exact ih source (Or.inl openSlot) hd
      · exact follow_leaves hs ho started fun s d j source openSlot hd => ih source openSlot hd

end Discipline

/-- **A failure leaves a typed destination behind, but for one sequence.** A nested conversion that
fails leaves a value that keeps the typing of the destination, except that the items in front are
nil in one sequence, which fields and live pointers lead to. It shows no other type for that. -/
theorem Converter.Standard.failure_leaves {c : Converter} {options : CallOptions}
    (h : c.Standard options) {budget : Nat} {src dst left : Value} {error : ConversionError}
    (hs : src.WellTyped) (hd : dst.WellTyped)
    (failed : (c.context options).convert budget src dst = .failed error left) :
    dst.type.Acquires left.type ∧ ∃ v, dst.KeepsTyping v ∧ v.Emptied left := by
  have notAny : dst.type ≠ .any := by
    apply Value.type_ne_any
    rintro rfl
    cases budget <;> cases failed
  have slot : TypedSlot (fun _ => True) dst.type dst := ⟨trivial, hd.here, hd⟩
  have leaves : ((Context.standard (c.settingsOf options)).convert budget src dst).Leaves
      ((typing _ Ty.Family.all).Remains dst.type) :=
    Discipline.convert_leaves budget (fun _ => hs) (Or.inl trivial) slot
  rw [← h.context_eq, failed] at leaves
  obtain ⟨v, held, emptied⟩ := leaves
  have acquires := held.conforms.acquires notAny
  constructor
  · rwa [emptied.type_eq]
  · exact ⟨v, ⟨held.wellTyped, fun t ht => ht.of_type held.conforms, acquires⟩, emptied⟩

/-- The field before the sequence is written, and the port that was there is gone. -/
theorem Converter.Standard.failure_leaves_row :
    let row (name : String) (ports : List Value) : Value := .struct "Row"
      [("Name", .string name), ("Ports", .seq (.scalar (.int .int)) none ports)]
    let src : Value := .map .string .any
      [(.string "name", .string "new"), (.string "ports", .seq .string none [.string "http"])]
    (∃ error, (({} : Converter).context {}).run src (row "old" [.int .int 80, .int .int 53]) =
      .failed error (row "new" [.nil, .int .int 53])) ∧
    ∃ v, (row "old" [.int .int 80, .int .int 53]).KeepsTyping v ∧
      v.Emptied (row "new" [.nil, .int .int 53]) := by
  intro row src
  have standard : ({} : Converter).Standard {} := ⟨rfl, rfl⟩
  have source : src.WellTyped := by
    simp [src, Value.wellTyped_map, Value.wellTyped_seq, Value.wellTyped_scalar,
      Value.conforms_scalar_iff, Value.Conforms.any, Scalar.kind]
  have slot : (row "old" [.int .int 80, .int .int 53]).WellTyped := by
    simp [row, Value.wellTyped_struct, Value.wellTyped_seq, Value.wellTyped_scalar,
      Value.conforms_scalar_iff, Scalar.kind]
  have failed : ∃ error, (({} : Converter).context {}).run src
      (row "old" [.int .int 80, .int .int 53]) = .failed error (row "new" [.nil, .int .int 53]) :=
    ⟨_, rfl⟩
  obtain ⟨error, failed'⟩ := failed
  exact ⟨⟨error, failed'⟩, (standard.failure_leaves source slot failed').2⟩

/-- A failure can leave nil where a number belongs. So a recipe that goes on after the failure of a
nested conversion has it stored in the destination of a call that is done. -/
theorem Converter.failure_stored :
    let number : Ty := .scalar (.int .int)
    let src : Value := .seq .string none [.string "http"]
    let ports : Value := .seq number none [.int .int 80, .int .int 53]
    let left : Value := .seq number none [.nil, .int .int 53]
    let trying : Recipe := ⟨.ofShape .sequence, .ofType (.slice (.slice number)), tryEach⟩
    src.WellTyped ∧ ports.WellTyped ∧
      (∃ error, (({} : Converter).context {}).run src ports = .failed error left) ∧
      ¬ left.WellTyped ∧
      ({ recipes := [trying] } : Converter).convert src (.seq (.slice number) none [ports]) =
        .done (.seq (.slice number) none [left]) := by
  intro number src ports left trying
  refine ⟨?_, ?_, ⟨_, rfl⟩, ?_, ?_⟩
  · simp [src, Value.wellTyped_seq, Value.wellTyped_scalar, Value.conforms_scalar_iff, Scalar.kind]
  · simp [ports, number, Value.wellTyped_seq, Value.wellTyped_scalar, Value.conforms_scalar_iff,
      Scalar.kind]
  · intro typed
    have item := ((Value.wellTyped_seq.1 typed).2 .nil List.mem_cons_self).1
    exact absurd item.eq_any_of_nil (by simp [number])
  · rfl

end Recast
