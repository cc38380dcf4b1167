import Recast.Proofs.Identity
import Recast.Proofs.Members
import Recast.Proofs.Merging

/-!
Values by way of documents. A document keeps neither the types of a value nor the order of its
entries. What it does keep is enough: converted into the zero value of the type, it gives the value
back up to the order of entries (`Settings.result?_document`). Numbers are narrowed to their types,
keys are read from their texts, names find their fields and pointers are allocated again.
-/

namespace Recast

open Outcome Recipe

/-! ## Values up to the order of entries -/

/-- Equal but for the order of entries, at every depth. -/
inductive Value.UpToOrder : Value → Value → Prop
  | nil : UpToOrder .nil .nil
  | scalar (s : Scalar) : UpToOrder (.scalar s) (.scalar s)
  | map {key value : Ty} {entries ordered entries' : Entries} (order : ordered.Perm entries')
      (count : entries.length = ordered.length)
      (keys : ∀ p ∈ entries.zip ordered, UpToOrder p.1.1 p.2.1)
      (values : ∀ p ∈ entries.zip ordered, UpToOrder p.1.2 p.2.2) :
      UpToOrder (.map key value entries) (.map key value entries')
  | struct {name : String} {fields fields' : Fields} (names : fields.map (·.1) = fields'.map (·.1))
      (slots : ∀ p ∈ fields.zip fields', UpToOrder p.1.2 p.2.2) :
      UpToOrder (.struct name fields) (.struct name fields')
  | seq {item : Ty} {length : Option Nat} {items items' : List Value}
      (count : items.length = items'.length) (each : ∀ p ∈ items.zip items', UpToOrder p.1 p.2) :
      UpToOrder (.seq item length items) (.seq item length items')
  | pointer {pointee : Ty} {target target' : Value} (each : UpToOrder target target') :
      UpToOrder (.pointer pointee target) (.pointer pointee target')
  | nilPointer (pointee : Ty) : UpToOrder (.nilPointer pointee) (.nilPointer pointee)

/-! ## Values that documents hold -/

/-- A node that a document holds, if it holds what is inside. -/
structure Value.Expressible (v : Value) : Prop where
  live : ∀ pointee, v ≠ .nilPointer pointee
  number : ∀ {s : Scalar}, v = .scalar s → s.Finite
  /-- Keys are told by their texts, and no two are equal. -/
  keys : ∀ {key value : Ty} {entries : Entries}, v = .map key value entries →
    entries.Distinct ∧ ∀ e ∈ entries, ∃ s : Scalar, e.1 = .scalar s ∧ s.kind.isTold = true
  names : ∀ {name : String} {fields : Fields}, v = .struct name fields → fields.Apart

/-- Every node is expressible. -/
def Value.Documented (v : Value) : Prop := v.Everywhere Value.Expressible

namespace Value

theorem documented_scalar {s : Scalar} (h : s.Finite) : (Value.scalar s).Documented := by
  refine everywhere_scalar.2 ⟨by simp, fun same => ?_, by simp, by simp⟩
  cases same
  exact h

theorem documented_pointer {pointee : Ty} {target : Value} (h : target.Documented) :
    (Value.pointer pointee target).Documented :=
  everywhere_pointer.2 ⟨⟨by simp, by simp, by simp, by simp⟩, h⟩

/-- What a document leads to is no pointer. -/
theorem isPointer_ofDocument (document : Document) : (ofDocument document).isPointer = false := by
  cases document with
  | int n =>
    simp only [ofDocument]
    split <;> rfl
  | _ => rfl

theorem elem_ofDocument (document : Document) :
    (ofDocument document).elem = ofDocument document := by
  have plain := isPointer_ofDocument document
  cases given : ofDocument document with
  | pointer => simp [given, isPointer] at plain
  | _ => rfl

end Value

/-! ## Keys -/

/-- A key of the type that its text tells. -/
def Value.Told (key : Ty) (v : Value) : Prop :=
  ∃ s : Scalar, v = .scalar s ∧ key = .scalar s.kind ∧ s.kind.isTold = true

theorem Value.Told.result?_text {σ : Settings} {key : Ty} {v : Value} (h : v.Told key) :
    σ.result? (.string v.text) key.zero = some v := by
  obtain ⟨s, rfl, rfl, told⟩ := h
  exact σ.result?_scalar_of_coerce (Scalar.coerce_text told)

theorem Value.Told.beq_self {key : Ty} {v : Value} (h : v.Told key) : v == v := by
  obtain ⟨s, rfl, -, told⟩ := h
  refine Value.same_self (everywhere_scalar.2 ?_)
  cases s with
  | float => cases told
  | _ => rfl

/-- Keys that differ have texts that differ. -/
theorem Entries.Distinct.nodup_texts {key : Ty} {entries : Entries} (h : entries.Distinct)
    (told : ∀ e ∈ entries, e.1.Told key) :
    ((entries.map fun e => (e.1.text, e.2.toDocument)).map (·.1)).Nodup := by
  rw [List.map_map, List.Nodup, List.pairwise_map]
  refine h.imp_of_mem fun {e e'} he he' differ same => ?_
  have text : e.1.text = e'.1.text := same
  have read := (told e he).result?_text (σ := {})
  rw [text, (told e' he').result?_text] at read
  rw [← Option.some.inj read, (told e' he').beq_self] at differ
  cases differ

theorem Value.Fits.key_eq {key value : Ty} {entries : Entries}
    (h : (Value.map key value entries).Fits (.map key value)) {e : Value × Value} (he : e ∈ entries)
    {s : Scalar} (hs : e.1 = .scalar s) : key = .scalar s.kind := by
  have free : key.AnyFree := h.admitted.part (by simp [Ty.parts])
  obtain ⟨-, conforms, -⟩ := h
  cases conforms with
  | map keys values =>
    have conforms := keys e he
    rw [hs] at conforms
    cases conforms with
    | any => exact absurd rfl free.here
    | scalar => rfl

theorem exists_perm_of_map {α β : Type} {f : α → β} {xs : List α} {ys : List β}
    (h : ys.Perm (xs.map f)) : ∃ zs : List α, zs.Perm xs ∧ ys = zs.map f := by
  have each : List.Forall₂ (fun y x => y = f x) (xs.map f) xs := by
    rw [List.forall₂_map_left_iff, List.forall₂_same]
    exact fun _ _ => rfl
  obtain ⟨zs, mapped, order⟩ := List.perm_comp_forall₂ h each
  refine ⟨zs, order, ?_⟩
  rwa [← List.forall₂_eq_eq_eq, List.forall₂_map_right_iff]

namespace Settings

variable (σ : Settings)

/-- The value comes back from its document, by way of the zero value of the type. -/
def Returns (t : Ty) (v : Value) : Prop :=
  ∃ w, σ.result? (Value.ofDocument v.toDocument) t.zero = some w ∧ w.UpToOrder v

variable {σ}

/-! ## Each kind of value -/

theorem Returns.scalar {s : Scalar} (h : s.Finite) : σ.Returns (.scalar s.kind) (.scalar s) := by
  obtain ⟨s', read, back⟩ := Scalar.coerce_document h
  refine ⟨.scalar s, ?_, .scalar s⟩
  rw [Value.toDocument, read]
  exact σ.result?_scalar_of_coerce back

theorem Returns.pointer {t : Ty} {target : Value} (h : σ.Returns t target) :
    σ.Returns (.pointer t) (.pointer t target) := by
  obtain ⟨w, converted, same⟩ := h
  refine ⟨.pointer t w, ?_, .pointer same⟩
  have live : (Value.ofDocument target.toDocument).elem.isPointer = false := by
    rw [Value.elem_ofDocument, Value.isPointer_ofDocument]
  rw [Ty.zero, Value.toDocument, σ.result?_nilPointer_right t live, Value.elem_ofDocument,
    converted]
  rfl

theorem Returns.seq {item : Ty} {length : Option Nat} {items : List Value}
    (count : ∀ n, length = some n → items.length = n) (h : ∀ v ∈ items, σ.Returns item v) :
    σ.Returns (.seq item length) (.seq item length items) := by
  obtain ⟨filled, each⟩ := exists_forall₂ h
  refine ⟨.seq item length filled, ?_, ?_⟩
  · rw [Value.toDocument_seq, Value.ofDocument_array, List.map_map]
    refine result?_zero_seq rfl (fun n hn => ?_) ?_
    · rw [List.length_map]
      exact count n hn
    · rw [List.forall₂_map_left_iff]
      exact each.imp fun v w back => back.1
  · exact .seq each.length_eq.symm fun p hp => (forall_mem_zip each p hp).2

/-- The names that an object gives are its keys. -/
theorem names_members (σ : Settings) (members : Members) :
    σ.Names (Value.ofDocument (.object members))
      (members.map fun m => (m.1, Value.ofDocument m.2)) := by
  rw [Value.ofDocument_object, Names, List.forall₂_map_left_iff, List.forall₂_map_right_iff,
    List.forall₂_same]
  intro m _
  exact ⟨.string m.1, σ.result?_scalar_of_coerce (k := .string) rfl, rfl⟩

theorem Returns.struct {name : String} {fields : Fields} (apart : fields.Apart)
    (h : ∀ f ∈ fields, σ.Returns f.2.type f.2) :
    σ.Returns (Value.struct name fields).type (.struct name fields) := by
  have each : ∀ f ∈ fields, ∃ slot : String × Value, slot.1 = f.1 ∧
      σ.result? (Value.ofDocument f.2.toDocument) f.2.type.zero = some slot.2 ∧
      slot.2.UpToOrder f.2 := by
    intro f hf
    obtain ⟨w, converted, same⟩ := h f hf
    exact ⟨(f.1, w), rfl, converted, same⟩
  obtain ⟨slots, filled⟩ := exists_forall₂ each
  have names : fields.map (·.1) = slots.map (·.1) :=
    map_eq_map_of_forall₂ (filled.imp fun f slot kept => kept.1.symm)
  have zero := Value.zero_type_struct name fields
  have kept := zero ▸ σ.start_zero (Value.struct name fields).type
  refine ⟨.struct name slots, ?_, .struct names.symm fun p hp => (forall_mem_zip filled p hp).2.2⟩
  have order := (Members.collect_perm (apart.nodup_names Value.toDocument)).map
    fun m => (m.1, Value.ofDocument m.2)
  rw [List.map_map] at order
  have given := σ.names_members (Members.collect (fields.map fun f => (f.1, f.2.toDocument)))
  rw [zero, Value.toDocument_struct]
  refine result?_struct_of_perm ?_ kept (Value.elem_ofDocument _ ▸ given) order ?_ ?_ ?_ ?_
  · rw [Value.elem_ofDocument, Value.isPointer_ofDocument]
  · rw [Fields.Apart, List.pairwise_map]
    exact apart
  · simp [Function.comp_def]
  · simp [names, Function.comp_def]
  · intro i f g slot hf hg hs
    simp only [List.getElem?_map, Option.map_eq_some_iff] at hf hg
    obtain ⟨field, at_i, rfl⟩ := hf
    obtain ⟨_, same, rfl⟩ := hg
    obtain rfl := Option.some.inj (at_i.symm.trans same)
    have pair : (slot, field) ∈ slots.zip fields := mem_zip_of_getElem? hs at_i
    exact (forall_mem_zip filled _ pair).2.1

theorem Returns.map {key value : Ty} {entries : Entries} (distinct : entries.Distinct)
    (told : ∀ e ∈ entries, e.1.Told key) (h : ∀ e ∈ entries, σ.Returns value e.2) :
    σ.Returns (.map key value) (.map key value entries) := by
  have put := Members.collect_perm (distinct.nodup_texts told)
  obtain ⟨ordered, order, written⟩ := exists_perm_of_map put
  have each : ∀ e ∈ ordered, ∃ entry : Value × Value, entry.1 = e.1 ∧
      σ.result? (.string e.1.text) key.zero = some entry.1 ∧
      σ.result? (Value.ofDocument e.2.toDocument) value.zero = some entry.2 ∧
      entry.2.UpToOrder e.2 := by
    intro e he
    obtain ⟨w, converted, same⟩ := h e (order.mem_iff.1 he)
    exact ⟨(e.1, w), rfl, (told e (order.mem_iff.1 he)).result?_text, converted, same⟩
  obtain ⟨filled, each⟩ := exists_forall₂ each
  have keys : filled.map (·.1) = ordered.map (·.1) :=
    (map_eq_map_of_forall₂ (each.imp fun e entry kept => kept.1.symm)).symm
  have apart : Entries.Distinct filled := by
    rw [Entries.distinct_iff_keys, keys, ← Entries.distinct_iff_keys]
    exact distinct.perm order
  refine ⟨.map key value filled, ?_, ?_⟩
  · rw [Value.toDocument_map, written, Value.ofDocument_object,
      ← Entries.collect_of_distinct apart]
    refine result?_zero_map rfl ?_
    rw [List.forall₂_map_left_iff, List.forall₂_map_left_iff]
    exact each.imp fun e entry back => ⟨back.2.1, back.2.2.1⟩
  · have same := forall_mem_zip each
    refine .map order each.length_eq.symm (fun p hp => ?_) fun p hp => (same p hp).2.2.2
    obtain ⟨s, key, -⟩ := told p.2 (order.mem_iff.1 (List.of_mem_zip hp).2)
    rw [(same p hp).1, key]
    exact .scalar s

/-- **A value comes back from its document.** -/
theorem result?_document (σ : Settings) {v : Value} {t : Ty} (fits : v.Fits t) (h : v.Documented) :
    σ.Returns t v := by
  induction v using Value.partsInduction generalizing t with
  | step v ih =>
    obtain rfl := fits.type_eq
    cases v with
    | nil => exact absurd rfl fits.ne_nil
    | nilPointer pointee => exact absurd rfl (h.here.live pointee)
    | scalar s => exact .scalar (h.here.number rfl)
    | pointer pointee target =>
      have part : target ∈ (Value.pointer pointee target).parts := List.mem_singleton_self target
      obtain ⟨_, same, inner⟩ | none := fits.exists_pointer
      · cases same
        exact .pointer (ih target part inner (h.part part))
      · cases none
    | seq item length items =>
      obtain ⟨_, same, count, inner⟩ := fits.exists_seq
      cases same
      exact .seq count fun w hw => ih w hw (inner w hw) (h.part hw)
    | struct name fields =>
      refine .struct (h.here.names rfl) fun f hf => ?_
      have part : f.2 ∈ (Value.struct name fields).parts := List.mem_map_of_mem hf
      have free : f.2.type.AnyFree := fits.admitted.part <| by
        rw [Value.type, Value.typeFields_eq_map, Ty.parts, List.map_map]
        exact List.mem_map_of_mem hf
      have typed : f.2.WellTyped := fits.wellTyped.part part
      exact ih f.2 part ⟨free, typed.here, typed⟩ (h.part part)
    | map key value entries =>
      obtain ⟨_, same, inner⟩ := fits.exists_map
      cases same
      obtain ⟨distinct, keys⟩ := h.here.keys rfl
      refine .map distinct (fun e he => ?_) fun e he => ?_
      · obtain ⟨s, hs, told⟩ := keys e he
        exact ⟨s, hs, fits.key_eq he hs, told⟩
      · have part : e.2 ∈ (Value.map key value entries).parts :=
          Value.mem_parts_map.2 ⟨e, he, .inr rfl⟩
        exact ih e.2 part (inner e he) (h.part part)

end Settings

/-- **A typed value survives as a document.** Converted back into the zero value of its type, the
document of a value gives the value again, up to the order of entries. -/
theorem Converter.Standard.convert_document {c : Converter} {options : CallOptions}
    (h : c.Standard options) {v : Value} (documented : v.Documented) (typed : v.WellTyped)
    (free : v.type.AnyFree) :
    ∃ w, c.convertWith options (Value.ofDocument v.toDocument) v.type.zero = .done w ∧
      w.UpToOrder v := by
  obtain ⟨w, converted, same⟩ := (c.settingsOf options).result?_document
    ⟨free, typed.here, typed⟩ documented
  exact ⟨w, h.result?_eq_some.2 converted, same⟩

/-- A struct with a map whose keys are numbers. As texts they stand in another order. -/
theorem Converter.Standard.convert_document_ports :
    let ports : Value := .map (.scalar (.int .uint8)) (.pointer .string)
      [(.int .uint8 9, .pointer .string (.string "discard")),
        (.int .uint8 80, .pointer .string (.string "http"))]
    let loads : Value := .seq (.scalar (.int .int16)) (some 2) [.int .int16 (-3), .int .int16 0]
    let v : Value := .struct "Host" [("Ports", ports), ("Loads", loads)]
    (v.Documented ∧ v.WellTyped ∧ v.type.AnyFree) ∧
      ∃ w, ({} : Converter).convertWith {} (Value.ofDocument v.toDocument) v.type.zero = .done w ∧
        w.UpToOrder v := by
  intro ports loads v
  have standard : ({} : Converter).Standard {} := ⟨rfl, rfl⟩
  have number : ∀ kind n, (Value.int kind n).Documented := fun kind n =>
    Value.documented_scalar trivial
  have text : ∀ s, (Value.pointer .string (.string s)).Documented := fun s =>
    Value.documented_pointer (Value.documented_scalar trivial)
  have differ : (Value.int .uint8 9 == .int .uint8 80) = false := by
    simp only [BEq.beq, Value.same, Scalar.same]
    decide
  have portsDocumented : ports.Documented := by
    refine everywhere_map.2 ⟨⟨by simp, by simp, ?_, by simp⟩, ?_⟩
    · rintro _ _ _ same
      cases same
      refine ⟨by simpa [Entries.Distinct] using differ, ?_⟩
      exact List.forall_mem_cons.2 ⟨⟨_, rfl, rfl⟩, List.forall_mem_singleton.2 ⟨_, rfl, rfl⟩⟩
    · refine List.forall_mem_cons.2 ⟨⟨number _ _, text _⟩, ?_⟩
      exact List.forall_mem_singleton.2 ⟨number _ _, text _⟩
  have loadsDocumented : loads.Documented := by
    refine everywhere_seq.2 ⟨⟨by simp, by simp, by simp, by simp⟩, ?_⟩
    exact List.forall_mem_cons.2 ⟨number _ _, List.forall_mem_singleton.2 (number _ _)⟩
  have documented : v.Documented := by
    refine everywhere_struct.2 ⟨⟨by simp, by simp, by simp, ?_⟩, ?_⟩
    · rintro _ _ same
      cases same
      have apart : Text.foldEq "Ports" "Loads" = false := by decide
      simpa [Fields.Apart] using apart
    · exact List.forall_mem_cons.2 ⟨portsDocumented, List.forall_mem_singleton.2 loadsDocumented⟩
  have scalar : ∀ s : Scalar, (Value.scalar s).Conforms (.scalar s.kind) ∧
      (Value.scalar s).WellTyped := fun s => ⟨.scalar s, Value.wellTyped_scalar s⟩
  have pointer : ∀ s, (Value.pointer .string (.string s)).Conforms (.pointer .string) ∧
      (Value.pointer .string (.string s)).WellTyped := fun s =>
    ⟨.pointer (.scalar _), Value.wellTyped_pointer.2 (scalar _)⟩
  have typed : v.WellTyped := by
    refine Value.wellTyped_struct.2 (List.forall_mem_cons.2 ⟨?_, List.forall_mem_singleton.2 ?_⟩)
    · refine Value.wellTyped_map.2 (List.forall_mem_cons.2 ⟨⟨scalar _, pointer _⟩, ?_⟩)
      exact List.forall_mem_singleton.2 ⟨scalar _, pointer _⟩
    · refine Value.wellTyped_seq.2 ⟨by simp, List.forall_mem_cons.2 ⟨scalar _, ?_⟩⟩
      exact List.forall_mem_singleton.2 (scalar _)
  have free : v.type.AnyFree := by
    have pointerFree : (Ty.pointer .string).AnyFree :=
      .intro (by simp) (List.forall_mem_singleton.2 (Ty.AnyFree.scalar _))
    have portsFree : ports.type.AnyFree := by
      refine .intro (by simp [ports, Value.type]) (List.forall_mem_cons.2 ⟨?_, ?_⟩)
      · exact Ty.AnyFree.scalar _
      · exact List.forall_mem_singleton.2 pointerFree
    have loadsFree : loads.type.AnyFree :=
      .intro (by simp [loads, Value.type]) (List.forall_mem_singleton.2 (Ty.AnyFree.scalar _))
    refine .intro (by simp [v, Value.type]) (List.forall_mem_cons.2 ⟨portsFree, ?_⟩)
    exact List.forall_mem_singleton.2 loadsFree
  exact ⟨⟨documented, typed, free⟩, standard.convert_document documented typed free⟩

end Recast
