import Recast.Proofs.Allocation
import Recast.Proofs.Identity
import Recast.Proofs.Natives

/-!
Elements converted to their own type. An optional element that is there comes back, and one that is
missing is filled: the nil pointer that stands for it is followed to the zero value of its type, and
a pointer is allocated around that. So an element comes back as it is if nothing is missing in it
(`Settings.result?_toValue`), and with every gap filled in any case (`Settings.exists_fills`). Keys
of one map may become the same when they are filled, and then share an entry.
-/

namespace Recast

open Outcome Recipe

/-! ## Elements with nothing missing -/

def ScalarKind.blank : (k : ScalarKind) → k.Carrier
  | .bool => false
  | .int k => k.wrap 0
  | .float k => k.zero
  | .string => ""

namespace Native

/-- The element that stands for a zero value, with all optional ones allocated. -/
def blank : (t : Native) → t.Carrier
  | .scalar k => k.blank
  | .value => Value.nil
  | .list _ | .hashMap _ _ | .orderedMap _ _ => []
  | .option t => some t.blank

/-- No optional element is missing. -/
def Complete : (t : Native) → t.Carrier → Prop
  | .scalar _, _ | .value, _ => True
  | .list t, (xs : List t.Carrier) => ∀ x ∈ xs, t.Complete x
  | .option t, (x : Option t.Carrier) => ∃ y, x = some y ∧ t.Complete y
  | .hashMap k v, (entries : List (k.Carrier × v.Carrier))
  | .orderedMap k v, (entries : List (k.Carrier × v.Carrier)) =>
    ∀ e ∈ entries, k.Complete e.1 ∧ v.Complete e.2

/-- The second element is the first one with blanks for what is missing. A map is filled entry by
entry, and where keys become the same, one entry remains for them. -/
def Filled : (t : Native) → t.Carrier → t.Carrier → Prop
  | .scalar _, x, y | .value, x, y => y = x
  | .list t, (xs : List t.Carrier), (ys : List t.Carrier) => List.Forall₂ t.Filled xs ys
  | .option t, (x : Option t.Carrier), (y : Option t.Carrier) =>
    match x with
    | none => y = some t.blank
    | some x => ∃ z, y = some z ∧ t.Filled x z
  | .hashMap k v, (entries : List (k.Carrier × v.Carrier)), (filled : List (k.Carrier × v.Carrier))
  | .orderedMap k v, (entries : List (k.Carrier × v.Carrier)),
      (filled : List (k.Carrier × v.Carrier)) =>
    ∃ each, List.Forall₂ (fun e f => k.Filled e.1 f.1 ∧ v.Filled e.2 f.2) entries each ∧
      Collects each filled

theorem element_blank (t : Native) : t.Element t.blank := by
  induction t with
  | scalar | value => trivial
  | list => exact List.forall_mem_nil _
  | option t ih =>
    rintro _ ⟨⟩
    exact ih
  | hashMap | orderedMap => exact ⟨List.forall_mem_nil _, List.Pairwise.nil⟩

theorem complete_blank (t : Native) : t.Complete t.blank := by
  induction t with
  | scalar | value => trivial
  | list | hashMap | orderedMap => exact List.forall_mem_nil _
  | option t ih => exact ⟨t.blank, rfl, ih⟩

/-- Nothing is missing once it is filled. -/
theorem Filled.complete {t : Native} {x y : t.Carrier} (h : t.Filled x y) : t.Complete y := by
  have entries : ∀ {k v : Native} {x each filled : List (k.Carrier × v.Carrier)},
      (∀ {x y : k.Carrier}, k.Filled x y → k.Complete y) →
      (∀ {x y : v.Carrier}, v.Filled x y → v.Complete y) →
      List.Forall₂ (fun e f => k.Filled e.1 f.1 ∧ v.Filled e.2 f.2) x each → Collects each filled →
        ∀ f ∈ filled, k.Complete f.1 ∧ v.Complete f.2 := by
    intro k v x each filled hk hv h collected f hf
    obtain ⟨_, _, key, value⟩ := exists_left_of_forall₂ h f (collected.mem f hf)
    exact ⟨hk key, hv value⟩
  induction t with
  | scalar | value => trivial
  | list t ih =>
    intro y hy
    obtain ⟨_, _, filled⟩ := exists_left_of_forall₂ h y hy
    exact ih filled
  | option t ih =>
    cases x with
    | none =>
      cases h
      exact complete_blank _
    | some x =>
      obtain ⟨z, rfl, filled⟩ := h
      exact ⟨z, rfl, ih filled⟩
  | hashMap k v ihKey ihValue | orderedMap k v ihKey ihValue =>
    obtain ⟨each, filled, collected⟩ := h
    exact entries ihKey ihValue filled collected

theorem type_ne_any {t : Native} (h : t.discrete = true) : t.type ≠ .any := by
  cases t with
  | value => cases h
  | _ => simp [type]

/-- **The value of an element with nothing missing is faithful.** -/
theorem faithful_toValue {t : Native} (ht : t.keyed = true) (discrete : t.discrete = true)
    {x : t.Carrier} (hx : t.Element x) (complete : t.Complete x) : (t.toValue x).Faithful := by
  -- Both kinds of maps are written alike, and entries in order have keys that are told apart.
  have entries : ∀ {k v : Native} {x : List (k.Carrier × v.Carrier)},
      (hashMap k v).keyed = true → (hashMap k v).discrete = true → (hashMap k v).Element x →
      (hashMap k v).Complete x →
      (k.keyed = true → k.discrete = true → ∀ {x : k.Carrier}, k.Element x → k.Complete x →
        (k.toValue x).Faithful) →
      (v.keyed = true → v.discrete = true → ∀ {x : v.Carrier}, v.Element x → v.Complete x →
        (v.toValue x).Faithful) → ((hashMap k v).toValue x).Faithful := by
    intro k v x ht discrete hx complete keys values
    obtain ⟨hk, hv⟩ := Bool.and_eq_true_iff.1 ht
    obtain ⟨exactKey, exactValue⟩ := Bool.and_eq_true_iff.1 discrete
    have conforms := conforms_toValue (hashMap k v) x
    obtain ⟨distinct, written⟩ := toValue_map_of_element hk hx
    rw [written] at conforms ⊢
    refine everywhere_map.2 ⟨⟨conforms, by simp, rfl, ?_, by simp, by simp⟩, ?_⟩
    · intro key value entries same
      cases same
      exact distinct
    · refine List.forall_mem_map.2 fun e he => ⟨?_, ?_⟩
      · exact keys (keyed_of_ordered hk) exactKey (hx.1 e he).1 (complete e he).1
      · exact values hv exactValue (hx.1 e he).2 (complete e he).2
  induction t with
  | scalar k =>
    have number : (Scalar.ofCarrier k x).isNaN = false := by
      cases k <;> first | rfl | cases discrete
    exact everywhere_scalar.2 ⟨.scalar _, by simp, number, by simp, by simp, by simp⟩
  | value => cases discrete
  | list t ih =>
    have conforms := conforms_toValue (list t) x
    refine everywhere_seq.2 ⟨⟨conforms, by simp, rfl, by simp, by simp, by simp⟩, ?_⟩
    exact List.forall_mem_map.2 fun y hy => ih ht discrete (hx y hy) (complete y hy)
  | option t ih =>
    obtain ⟨y, rfl, rest⟩ := complete
    have conforms := conforms_toValue (option t) (some y)
    refine everywhere_pointer.2 ⟨⟨conforms, by simp, rfl, by simp, by simp, ?_⟩, ?_⟩
    · intro target same
      exact absurd (Value.pointer.inj same).1 (type_ne_any discrete)
    · exact ih ht discrete (hx y rfl) rest
  | hashMap k v ihKey ihValue => exact entries ht discrete hx complete ihKey ihValue
  | orderedMap k v ihKey ihValue => exact entries ht discrete hx.apart complete ihKey ihValue

end Native

/-! ## Conversion of elements -/

namespace Settings

open Native

variable (σ : Settings)

/-- **An element with nothing missing comes back.** -/
theorem result?_toValue {t : Native} (ht : t.keyed = true) (discrete : t.discrete = true)
    {x : t.Carrier} (hx : t.Element x) (complete : t.Complete x) :
    σ.result? (t.toValue x) t.type.zero = some (t.toValue x) :=
  σ.result?_zero (faithful_toValue ht discrete hx complete) (conforms_toValue t x)

/-- What a nil pointer stands for gives the blank element. -/
theorem result?_blank {t : Native} (ht : t.keyed = true) (discrete : t.discrete = true) :
    σ.result? t.type.elem.zero t.type.zero = some (t.toValue t.blank) := by
  have itself := fun (t : Native) (ht : t.keyed = true) (discrete : t.discrete = true) =>
    σ.result?_toValue ht discrete t.element_blank t.complete_blank
  induction t with
  | scalar k => cases k <;> exact itself _ ht discrete
  | value => cases discrete
  | list | hashMap | orderedMap => exact itself _ ht discrete
  | option t ih =>
    have content : t.type.elem.zero.content = t.type.elem.zero :=
      Value.content_of_isPointer (Ty.isPointer_zero_elem t.type)
    have allocated := σ.result?_unallocated t.type.elem.zero t.type
    rw [content, ih ht discrete] at allocated
    exact allocated

/-- Into the zero value of its type, an element is converted as what its pointers lead to. -/
theorem result?_content_toValue {t : Native} (discrete : t.discrete = true) (x : t.Carrier) :
    σ.result? (t.toValue x).content t.type.zero = σ.result? (t.toValue x) t.type.zero := by
  cases t with
  | option t =>
    have same : ((option t).toValue x).content.content = ((option t).toValue x).content :=
      Value.content_of_isPointer (Value.isPointer_content _)
    have left := σ.result?_unallocated ((option t).toValue x).content t.type
    rw [same] at left
    exact left.trans (σ.result?_unallocated ((option t).toValue x) t.type).symm
  | value => cases discrete
  | _ => rfl

/-- What becomes of an element: its value is converted to one that is read as the element with all
gaps filled. -/
def Fills (t : Native) (x y : t.Carrier) : Prop :=
  ∃ v, σ.result? (t.toValue x) t.type.zero = some v ∧ t.ofValue v = .ok y ∧ t.Filled x y

namespace Fills

variable {σ}

theorem scalar (k : ScalarKind) (x : k.Carrier) : σ.Fills (.scalar k) x x := by
  have coerced := Scalar.coerce_self (.ofCarrier k x)
  rw [Scalar.kind_ofCarrier] at coerced
  exact ⟨.scalar (.ofCarrier k x), σ.result?_scalar_of_coerce coerced, ofValue_scalar.2 rfl, rfl⟩

theorem list {t : Native} {xs ys : List t.Carrier} (h : List.Forall₂ (σ.Fills t) xs ys) :
    σ.Fills (.list t) xs ys := by
  have between : List.Forall₂ (fun x y => ∃ v, σ.result? (t.toValue x) t.type.zero = .some v ∧
      t.ofValue v = .ok y) xs ys := h.imp fun x y ⟨v, converted, read, _⟩ => ⟨v, converted, read⟩
  obtain ⟨items, converted, read⟩ := exists_between_forall₂ between
  have filled : List.Forall₂ t.Filled xs ys := h.imp fun x y ⟨_, _, _, filled⟩ => filled
  refine ⟨.seq t.type .none items, ?_, ofValue_seq.2 read, filled⟩
  exact result?_zero_seq rfl (by simp) (List.forall₂_map_left_iff.2 converted)

theorem none {t : Native} (ht : t.keyed = true) (discrete : t.discrete = true) :
    σ.Fills (.option t) .none (.some t.blank) := by
  refine ⟨.pointer t.type (t.toValue t.blank), ?_, ?_, rfl⟩
  · have allocated := σ.result?_unallocated (.nilPointer t.type) t.type
    rw [Value.content, σ.result?_blank ht discrete] at allocated
    exact allocated
  · exact ofValue_pointer.2 (ofValue_toValue ht t.element_blank)

theorem some {t : Native} (discrete : t.discrete = true) {x y : t.Carrier} (h : σ.Fills t x y) :
    σ.Fills (.option t) (.some x) (.some y) := by
  obtain ⟨v, converted, read, filled⟩ := h
  refine ⟨.pointer t.type v, ?_, ofValue_pointer.2 read, y, rfl, filled⟩
  have allocated := σ.result?_unallocated (.pointer t.type (t.toValue x)) t.type
  rw [Value.content, σ.result?_content_toValue discrete, converted] at allocated
  exact allocated

/-- The entries of a map are converted one by one and collected, and what is collected is read. -/
theorem entries {k v : Native} (hk : k.ordered = true) {x : List (k.Carrier × v.Carrier)}
    (hx : (hashMap k v).Element x) (keys : ∀ e ∈ x, ∃ y, σ.Fills k e.1 y)
    (values : ∀ e ∈ x, ∃ y, σ.Fills v e.2 y) :
    ∃ written each read, σ.result? ((hashMap k v).toValue x) (Ty.map k.type v.type).zero =
        .some (.map k.type v.type written) ∧ ReadsEntries k v written read ∧
      List.Forall₂ (fun e f => k.Filled e.1 f.1 ∧ v.Filled e.2 f.2) x each ∧
      Collects each read := by
  have fills : ∀ e ∈ x, ∃ f : k.Carrier × v.Carrier, σ.Fills k e.1 f.1 ∧ σ.Fills v e.2 f.2 := by
    intro e he
    obtain ⟨key, filledKey⟩ := keys e he
    obtain ⟨value, filledValue⟩ := values e he
    exact ⟨(key, value), filledKey, filledValue⟩
  obtain ⟨each, h⟩ := exists_forall₂ fills
  have between : List.Forall₂ (fun e f => ∃ p : Value × Value,
      (σ.result? (k.toValue e.1) k.type.zero = .some p.1 ∧
        σ.result? (v.toValue e.2) v.type.zero = .some p.2) ∧
      (k.ofValue p.1 = .ok f.1 ∧ v.ofValue p.2 = .ok f.2)) x each := by
    refine h.imp ?_
    rintro e f ⟨⟨key, convertedKey, readKey, -⟩, value, convertedValue, readValue, -⟩
    exact ⟨(key, value), ⟨convertedKey, convertedValue⟩, readKey, readValue⟩
  obtain ⟨pairs, converted, read⟩ := exists_between_forall₂ between
  have exact : ∀ p ∈ pairs, p.1.Exact := by
    intro p hp
    obtain ⟨e, _, key, -⟩ := exists_left_of_forall₂ converted p hp
    have conforms := σ.convert_conforms (Value.conforms_zero k.type) (σ.result?_eq_some.1 key)
    exact exact_of_conforms (discrete_of_ordered hk) conforms
  obtain ⟨collected, reads, remains⟩ := ReadsEntries.collect read exact
  refine ⟨_, each, collected, ?_, reads, h.imp ?_, remains⟩
  · rw [(toValue_map_of_element hk hx).2]
    exact result?_zero_map rfl (List.forall₂_map_left_iff.2 converted)
  · rintro e f ⟨⟨_, _, _, filledKey⟩, _, _, _, filledValue⟩
    exact ⟨filledKey, filledValue⟩

end Fills

/-- **Every element comes back with its gaps filled.** -/
theorem exists_fills {t : Native} (ht : t.keyed = true) (discrete : t.discrete = true)
    {x : t.Carrier} (hx : t.Element x) : ∃ y, σ.Fills t x y := by
  induction t with
  | scalar k => exact ⟨x, .scalar k x⟩
  | value => cases discrete
  | list t ih =>
    obtain ⟨ys, each⟩ := exists_forall₂ fun y hy => ih ht discrete (hx y hy)
    exact ⟨ys, .list each⟩
  | option t ih =>
    have keyed : t.keyed = true := ht
    have exact : t.discrete = true := discrete
    cases x with
    | none => exact ⟨some t.blank, Fills.none keyed exact⟩
    | some x =>
      obtain ⟨y, h⟩ := ih keyed exact (hx x rfl)
      exact ⟨some y, Fills.some exact h⟩
  | hashMap k v ihKey ihValue =>
    obtain ⟨hk, hv⟩ := Bool.and_eq_true_iff.1 ht
    obtain ⟨exactKey, exactValue⟩ := Bool.and_eq_true_iff.1 discrete
    obtain ⟨written, each, read, converted, reads, filled, remains⟩ := Fills.entries hk hx
      (fun e he => ihKey (keyed_of_ordered hk) exactKey (hx.1 e he).1)
      (fun e he => ihValue hv exactValue (hx.1 e he).2)
    have put : Collects read (putAll (insertAtEnd k.compare) read) :=
      (insertAtEnd_puts (lawful_compare hk) _).collects fun _ _ => trivial
    exact ⟨_, _, converted, ofValue_hashMap.2 ⟨read, reads, rfl⟩, each, filled, remains.trans put⟩
  | orderedMap k v ihKey ihValue =>
    obtain ⟨hk, hv⟩ := Bool.and_eq_true_iff.1 ht
    obtain ⟨exactKey, exactValue⟩ := Bool.and_eq_true_iff.1 discrete
    obtain ⟨written, each, read, converted, reads, filled, remains⟩ := Fills.entries hk hx.apart
      (fun e he => ihKey (keyed_of_ordered hk) exactKey (hx.1 e he).1)
      (fun e he => ihValue hv exactValue (hx.1 e he).2)
    have put : Collects read (putAll (insertByKey k.compare) read) :=
      (insertByKey_puts (lawful_compare hk) _).collects fun _ _ => trivial
    exact ⟨_, _, converted, ofValue_orderedMap.2 ⟨read, reads, rfl⟩, each, filled,
      remains.trans put⟩

end Settings

/-! ## Calls of the converter -/

/-- **An element converted to its own type comes back with nothing missing in it.** Each optional
element that is missing is filled with the blank one of its type, entries whose keys become the same
are one entry, and an element in which nothing is missing comes back as it is. -/
theorem Converter.Standard.convertTo_toValue {c : Converter} (h : c.Standard {}) {t : Native}
    (keyed : t.keyed = true) (discrete : t.discrete = true) {x : t.Carrier} (hx : t.Element x) :
    ∃ y, c.convertTo t (t.toValue x) = some (.ok y) ∧ t.Element y ∧ t.Filled x y ∧ t.Complete y ∧
      (t.Complete x → y = x) := by
  obtain ⟨y, v, converted, read, filled⟩ := (c.settingsOf {}).exists_fills keyed discrete hx
  have done : c.convert (t.toValue x) t.type.zero = .done v := h.result?_eq_some.2 converted
  refine ⟨y, ?_, Native.element_of_ofValue keyed read, filled, filled.complete, fun complete => ?_⟩
  · simp [convertTo, done, result?, Except.bind, read]
  · have same := (c.settingsOf {}).result?_toValue keyed discrete hx complete
    rw [converted, Option.some.injEq] at same
    rw [same, Native.ofValue_toValue keyed hx, Except.ok.injEq] at read
    exact read.symm

/-- Keys and items that are missing. The two keys of the map become the same. -/
theorem Converter.Standard.convertTo_toValue_missing :
    let t : Native :=
      .orderedMap (.option (.scalar (.int .int8))) (.list (.option (.scalar .string)))
    let x : t.Carrier := [(none, [none, some "a"]), (some (0 : BitVec 8), [])]
    t.keyed = true ∧ t.discrete = true ∧ t.Element x ∧
      ∃ y, ({} : Converter).convertTo t (t.toValue x) = some (.ok y) ∧ t.Element y ∧ t.Filled x y ∧
        t.Complete y ∧ (t.Complete x → y = x) := by
  intro t x
  have standard : ({} : Converter).Standard {} := ⟨rfl, rfl⟩
  have element : t.Element x := by
    refine ⟨fun e _ => ⟨fun _ _ => trivial, fun _ _ _ _ => trivial⟩, ?_⟩
    exact List.pairwise_pair.2 rfl
  exact ⟨rfl, rfl, element, standard.convertTo_toValue rfl rfl element⟩

/-- A missing number comes back as zero. -/
theorem Converter.convertTo_toValue_none :
    let t : Native := .option (.scalar (.int .int32))
    let x : t.Carrier := none
    t.keyed = true ∧ t.discrete = true ∧ t.Element x ∧
      ({} : Converter).convertTo t (t.toValue x) = some (.ok (some (0 : BitVec 32))) ∧
      ({} : Converter).convertTo t (t.toValue x) ≠ some (.ok x) := by
  intro t x
  have converted : ({} : Converter).convertTo t (t.toValue x) = some (.ok (some (0 : BitVec 32))) :=
    rfl
  refine ⟨rfl, rfl, fun _ _ => trivial, converted, ?_⟩
  rw [converted]
  intro same
  exact Option.some_ne_none _ (Except.ok.inj (Option.some.inj same))

end Recast
