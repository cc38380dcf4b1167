import Recast.Proofs.Conformance
import Recast.Proofs.Results

/-!
Identity conversion. A faithful value is converted to itself, both from the zero value of any type
that it conforms to (`result?_zero`) and from itself (`result?_self`). The zero values carry the
induction: what is inside a container is converted from the zero value of a declared type, which
may say less than the type that the value shows.
-/

namespace Recast

open Outcome Recipe

/-! ## Containers that are given their own contents -/

/-- No two fields have a name that is the same up to case. -/
def Fields.Apart (fields : Fields) : Prop :=
  fields.Pairwise fun f g => Text.foldEq f.1 g.1 = false

/-- Fields whose names are apart have names of their own, whatever becomes of the values. -/
theorem Fields.Apart.nodup_names {α : Type} {fields : Fields} (h : fields.Apart) (f : Value → α) :
    ((fields.map fun field => (field.1, f field.2)).map (·.1)).Nodup := by
  rw [List.map_map, List.Nodup, List.pairwise_map]
  refine h.imp fun {a b} apart same => ?_
  have equal : a.1 = b.1 := same
  rw [equal, Text.foldEq_refl] at apart
  cases apart

namespace Recipe

theorem slotOf_self {fields : Fields} (h : fields.Apart) {i : Nat} {f : String × Value}
    (hf : fields[i]? = some f) : slotOf (fields.map (·.1)) f.1 = some i := by
  obtain ⟨inside, rfl⟩ := List.getElem?_eq_some_iff.1 hf
  rw [slotOf, List.findIdx?_eq_some_iff_getElem]
  refine ⟨by simpa using inside, by simp [Text.foldEq_refl], fun j hj => ?_⟩
  have apart := List.pairwise_iff_getElem.1 h j i (by omega) inside hj
  simpa using apart

theorem filter_eq_singleton {α : Type} {p : α → Bool} {xs : List α} {i : Nat} {x : α}
    (hx : xs[i]? = some x) (hp : ∀ (j : Nat) y, xs[j]? = some y → (p y = true ↔ j = i)) :
    xs.filter p = [x] := by
  induction xs generalizing i with
  | nil => simp at hx
  | cons a xs ih =>
    cases i with
    | zero =>
      obtain rfl : a = x := Option.some.inj hx
      have kept : p a = true := (hp 0 a rfl).2 rfl
      have dropped : ∀ y ∈ xs, ¬p y = true := by
        intro y hy
        obtain ⟨j, hj⟩ := List.mem_iff_getElem?.1 hy
        simp [hp (j + 1) y hj]
      rw [List.filter_cons_of_pos kept, List.filter_eq_nil_iff.2 dropped]
    | succ i =>
      have dropped : ¬p a = true := by simp [hp 0 a rfl]
      rw [List.filter_cons_of_neg dropped]
      exact ih hx fun j y hy => by simpa using hp (j + 1) y hy

theorem valuesFor_self {fields : Fields} (h : fields.Apart) {i : Nat} {f : String × Value}
    (hf : fields[i]? = some f) : valuesFor (fields.map (·.1)) fields i = [f.2] := by
  have own : fields.filter (fun p => slotOf (fields.map (·.1)) p.1 == some i) = [f] := by
    apply filter_eq_singleton hf
    intro j g hg
    simp [slotOf_self h hg]
  rw [valuesFor, own]
  rfl

theorem valuesFor_perm {names : List String} {pairs pairs' : Fields} (h : pairs.Perm pairs')
    (i : Nat) : (valuesFor names pairs i).Perm (valuesFor names pairs' i) :=
  (h.filter _).map _

end Recipe

namespace Settings

variable {σ : Settings}

theorem result?_map_self {key value : Ty} {old entries : Entries}
    (kept : σ.start (.map key value old) = .map key value old) (distinct : entries.Distinct)
    (keys : ∀ e ∈ entries, σ.result? e.1 key.zero = some e.1)
    (values : ∀ e ∈ entries, σ.result? e.2 ((old.get? e.1).getD value.zero) = some e.2) :
    σ.result? (.map key value entries) (.map key value old) =
      some (.map key value entries) := by
  rw [result?_map_eq_some rfl kept]
  refine Or.inr ⟨entries, entries, rfl, ?_, by rw [Entries.collect_of_distinct distinct]⟩
  rw [List.forall₂_same]
  exact fun e he => ⟨keys e he, values e he⟩

/-- A source gives each field its value, in whatever order it names them. -/
theorem result?_struct_of_perm {src : Value} (live : src.elem.isPointer = false) {name : String}
    {old named fields slots : Fields} (kept : σ.start (.struct name old) = .struct name old)
    (given : σ.Names src.elem named) (order : named.Perm fields) (apart : fields.Apart)
    (names : fields.map (·.1) = old.map (·.1)) (names' : slots.map (·.1) = old.map (·.1))
    (each : ∀ (i : Nat) f g s, old[i]? = some f → fields[i]? = some g → slots[i]? = some s →
      σ.result? g.2 f.2 = some s.2) :
    σ.result? src (.struct name old) = some (.struct name slots) := by
  rw [result?_struct_eq_some live kept]
  refine Or.inr ⟨named, slots, given, ?_, rfl⟩
  rw [assignAll_eq_done, ← names]
  refine ⟨fun f hf unknown => ?_, names'.trans names.symm, fun i f s hf hs => ?_⟩
  · obtain ⟨i, hi⟩ := List.mem_iff_getElem?.1 (order.mem_iff.1 hf)
    rw [slotOf_self apart hi] at unknown
    cases unknown
  · have count := congrArg List.length names
    simp only [List.length_map] at count
    have inside := (List.getElem?_eq_some_iff.1 hf).1
    have at_i : fields[i]? = some fields[i] := List.getElem?_eq_getElem (by omega)
    have own : (valuesFor (fields.map (·.1)) named i).Perm
        (valuesFor (fields.map (·.1)) fields i) := valuesFor_perm order i
    rw [valuesFor_self apart at_i, List.perm_singleton] at own
    rw [own, convertAll_singleton_eq_done, nested_eq_done]
    exact each i f _ s hf at_i hs

theorem result?_struct_self {name : String} {old fields : Fields}
    (kept : σ.start (.struct name old) = .struct name old) (apart : fields.Apart)
    (names : fields.map (·.1) = old.map (·.1))
    (slots : ∀ (i : Nat) f g, old[i]? = some f → fields[i]? = some g →
      σ.result? g.2 f.2 = some g.2) :
    σ.result? (.struct name fields) (.struct name old) = some (.struct name fields) := by
  refine result?_struct_of_perm rfl kept rfl (.refl _) apart names names fun i f g s hf hg hs => ?_
  obtain rfl := Option.some.inj (hg.symm.trans hs)
  exact slots i f g hf hg

theorem result?_seq_self {item : Ty} {length : Option Nat} {old items : List Value}
    (kept : σ.start (.seq item length old) = .seq item length old)
    (count : ∀ n, length = some n → items.length = n ∧ old.length ≤ n)
    (each : ∀ (i : Nat) v, items[i]? = some v →
      σ.result? v (old[i]?.getD item.zero) = some v) :
    σ.result? (.seq item length items) (.seq item length old) = some (.seq item length items) := by
  rw [result?_seq_eq_some rfl kept]
  refine Or.inr ⟨item, length, items, items, rfl, ?_, rfl⟩
  refine fillSequence_of_count count (fillItems_eq_done.2 ⟨rfl, fun i v w hv hw => ?_⟩)
  obtain rfl := Option.some.inj (hv.symm.trans hw)
  exact σ.nested_eq_done.2 (each i v hv)

end Settings

/-! ## Faithful values -/

/-- A node that a conversion can reproduce, if it can reproduce what is inside. -/
structure Value.Reproducible (v : Value) : Prop where
  conforms : v.Conforms v.type
  live : ∀ pointee, v ≠ .nilPointer pointee
  number : v.isNaN = false
  keys : ∀ {key value : Ty} {entries : Entries}, v = .map key value entries → entries.Distinct
  names : ∀ {name : String} {fields : Fields}, v = .struct name fields → fields.Apart
  /-- A pointer without a declared type would be allocated around what the inner one leads to. -/
  untyped : ∀ {target}, v = .pointer .any target → target.isPointer = false

/-- Every node is reproducible. -/
def Value.Faithful (v : Value) : Prop := v.Everywhere Value.Reproducible

namespace Value.Faithful

variable {v : Value}

theorem live (h : v.Faithful) : v.Live := h.mono fun _ node => node.live

theorem same_self (h : v.Faithful) : v.same v = true :=
  Value.same_self (h.mono fun _ node => node.number)

end Value.Faithful

namespace Settings

variable (σ : Settings)

/-- **A faithful value comes back from any zero value that it conforms to.** -/
theorem result?_zero {v : Value} (h : v.Faithful) {t : Ty} (ht : v.Conforms t) :
    σ.result? v t.zero = some v := by
  induction v using Value.partsInduction generalizing t with
  | step v ih =>
    have kept := σ.start_zero t
    cases ht with
    | any => exact σ.result?_nil v
    | scalar s =>
      exact σ.result?_scalar_of_coerce s.coerce_self
    | @map key value entries keys values =>
      refine result?_map_self kept (h.here.keys rfl) (fun e he => ?_) fun e he => ?_
      · have part : e.1 ∈ (Value.map key value entries).parts :=
          Value.mem_parts_map.2 ⟨e, he, Or.inl rfl⟩
        exact ih _ part (h.part part) (keys e he)
      · have part : e.2 ∈ (Value.map key value entries).parts :=
          Value.mem_parts_map.2 ⟨e, he, Or.inr rfl⟩
        exact ih _ part (h.part part) (values e he)
    | @struct name fields types names slots =>
      rw [Ty.zero, Ty.zeroFields_eq_map] at kept ⊢
      refine result?_struct_self kept (h.here.names rfl) ?_ ?_
      · simpa [Function.comp_def] using names
      intro i f g hf hg
      rw [List.getElem?_map, Option.map_eq_some_iff] at hf
      obtain ⟨u, hu, rfl⟩ := hf
      have part : g.2 ∈ (Value.struct name fields).parts :=
        List.mem_map_of_mem (List.mem_of_getElem? hg)
      have pair : (g, u) ∈ fields.zip types := mem_zip_of_getElem? hg hu
      exact ih _ part (h.part part) (slots _ pair)
    | @seq item length items count each =>
      have own : ∀ v ∈ items, σ.result? v item.zero = some v := by
        intro v hv
        have part : v ∈ (Value.seq item length items).parts := hv
        exact ih _ part (h.part part) (each v hv)
      cases length with
      | none => exact result?_seq_self kept (by simp) fun i v hv => own v (List.mem_of_getElem? hv)
      | some n =>
        refine result?_seq_self kept (by simpa using count) fun i v hv => ?_
        have zero : (List.replicate n item.zero)[i]?.getD item.zero = item.zero := by
          rw [List.getElem?_replicate]
          split <;> rfl
        rw [zero]
        exact own v (List.mem_of_getElem? hv)
    | @pointer pointee target each =>
      have part : target ∈ (Value.pointer pointee target).parts := List.mem_singleton_self target
      rw [Ty.zero, σ.result?_nilPointer_right pointee h.live.elem_isPointer]
      by_cases typed : pointee = .any
      · subst typed
        have plain := h.here.untyped rfl
        have itself : (Value.pointer .any target).elem = target := by
          cases target <;> first | rfl | simp [Value.isPointer] at plain
        rw [itself, Ty.zero, σ.result?_nil]
        rfl
      · have notNil := Ty.zero_ne_nil typed
        rw [σ.result?_elem _ notNil, σ.result?_pointer_left _ _ notNil,
          ih target part (h.part part) each]
        rfl
    | nilPointer pointee => exact absurd rfl (h.here.live pointee)

/-- Around nothing, a pointer takes the source as it is. -/
theorem result?_pointer_nil (hm : σ.mergeMode = .intoExisting) (pointee : Ty) {src : Value}
    (plain : src.isPointer = false) :
    σ.result? src (.pointer pointee .nil) = some (.pointer pointee src) := by
  have notNil : Value.pointer pointee .nil ≠ .nil := by simp
  have kept := σ.start_of_intoExisting hm (.pointer pointee .nil)
  have notChosen : chosen src (σ.start (.pointer pointee .nil)) = none := by
    rw [kept, chosen_pointer_right]
    exact byShape_nil_right _
  rw [σ.result?_of_not_chosen notNil notChosen, kept, done?_follow_pointer_right plain]
  exact congrArg _ (σ.result?_nil src)

theorem result?_self_intoExisting (hm : σ.mergeMode = .intoExisting) {v : Value}
    (h : v.Faithful) : σ.result? v v = some v := by
  induction v using Value.partsInduction with
  | step v ih =>
    have kept := σ.start_of_intoExisting hm
    have conforms := h.here.conforms
    have own : ∀ c ∈ v.parts, σ.result? c c = some c := fun c hc => ih c hc (h.part hc)
    cases v with
    | nil => exact σ.result?_nil .nil
    | scalar s =>
      rw [result?_scalar_eq_some (kept _)]
      exact ⟨s, s.coerce_self, rfl⟩
    | map key value entries =>
      refine result?_map_self (kept _) (h.here.keys rfl) (fun e he => ?_) fun e he => ?_
      · have part : e.1 ∈ (Value.map key value entries).parts :=
          Value.mem_parts_map.2 ⟨e, he, Or.inl rfl⟩
        cases conforms with
        | map keys _ => exact σ.result?_zero (h.part part) (keys e he)
      · have keyPart : e.1 ∈ (Value.map key value entries).parts :=
          Value.mem_parts_map.2 ⟨e, he, Or.inl rfl⟩
        have part : e.2 ∈ (Value.map key value entries).parts :=
          Value.mem_parts_map.2 ⟨e, he, Or.inr rfl⟩
        have keySame : e.1 == e.1 := Value.Faithful.same_self (h.part keyPart)
        rw [(h.here.keys rfl).get?_of_mem he keySame]
        exact own e.2 part
    | struct name fields =>
      refine result?_struct_self (kept _) (h.here.names rfl) rfl fun i f g hf hg => ?_
      obtain rfl := Option.some.inj (hf.symm.trans hg)
      exact own f.2 (List.mem_map_of_mem (List.mem_of_getElem? hf))
    | seq item length items =>
      cases conforms with
      | seq count _ =>
        refine result?_seq_self (kept _) (fun n hn => ?_) fun i v hv => ?_
        · exact ⟨count n hn, Nat.le_of_eq (count n hn)⟩
        · rw [hv]
          exact own v (List.mem_of_getElem? hv)
    | pointer pointee target =>
      have itself := own target (List.mem_singleton_self target)
      have notNil : Value.pointer pointee target ≠ .nil := by simp
      rw [σ.result?_pointer_left pointee target notNil]
      by_cases empty : target = .nil
      · subst empty
        exact σ.result?_pointer_nil hm pointee rfl
      · rw [σ.result?_pointer_right hm pointee target empty, itself]
        rfl
    | nilPointer pointee => exact absurd rfl (h.here.live pointee)

/-- **A faithful value is converted into itself**, in either merge mode. -/
theorem result?_self {v : Value} (h : v.Faithful) : σ.result? v v = some v := by
  cases hm : σ.mergeMode with
  | intoExisting => exact σ.result?_self_intoExisting hm h
  | replace =>
    rw [← σ.result?_reset hm v v]
    exact σ.result?_zero h h.here.conforms

end Settings

/-- **Identity conversion.** Whatever the merge mode, a faithful value is converted to itself from
the zero value of its type and from itself, and it is equal to itself. -/
theorem Converter.Standard.convert_faithful {c : Converter} {options : CallOptions}
    (h : c.Standard options) {v : Value} (hv : v.Faithful) :
    c.convertWith options v v.type.zero = .done v ∧ c.convertWith options v v = .done v ∧
      (v == v) = true := by
  refine ⟨?_, ?_, hv.same_self⟩
  · rw [h.result?_eq_some]
    exact Settings.result?_zero _ hv hv.here.conforms
  · rw [h.result?_eq_some]
    exact Settings.result?_self _ hv

/-- A map of pointers, from zero and from itself. -/
theorem Converter.Standard.convert_faithful_ports :
    let ports : Value := .map (.scalar (.int .uint8)) (.pointer .string)
      [(.int .uint8 80, .pointer .string (.string "http")),
        (.int .uint8 53, .pointer .string (.string "dns"))]
    ({} : Converter).convertWith {} ports ports.type.zero = .done ports ∧
      ({} : Converter).convertWith {} ports ports = .done ports ∧ (ports == ports) = true := by
  intro ports
  have standard : ({} : Converter).Standard {} := ⟨rfl, rfl⟩
  have scalar : ∀ s : Scalar, s.isNaN = false → (Value.scalar s).Faithful := by
    intro s number
    exact everywhere_scalar.2 ⟨.scalar s, by simp, number, by simp, by simp, by simp⟩
  have text : ∀ s, (Value.pointer .string (.string s)).Faithful := by
    intro s
    refine everywhere_pointer.2 ⟨⟨?_, by simp, rfl, by simp, by simp, by simp⟩, scalar _ rfl⟩
    exact .pointer (.scalar _)
  have apart : (Value.int .uint8 80 == .int .uint8 53) = false := by
    simp only [BEq.beq, Value.same, Scalar.same]
    decide
  apply standard.convert_faithful
  refine everywhere_map.2 ⟨⟨?_, by simp, rfl, ?_, by simp, by simp⟩, ?_⟩
  · apply Value.Conforms.map
    · simpa using ⟨.scalar _, .scalar _⟩
    · simpa using ⟨.pointer (.scalar _), .pointer (.scalar _)⟩
  · intro key value entries same
    cases same
    simpa [Entries.Distinct] using apart
  · refine List.forall_mem_cons.2 ⟨⟨scalar _ rfl, text _⟩, ?_⟩
    exact List.forall_mem_cons.2 ⟨⟨scalar _ rfl, text _⟩, by simp⟩

end Recast
