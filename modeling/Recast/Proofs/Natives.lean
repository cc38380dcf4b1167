import Recast.Proofs.Entries
import Recast.Proofs.Reading

/-!
Elements as values and back. The value of an element conforms to the native type
(`Native.conforms_toValue`) and is read as that element (`Native.ofValue_toValue`). No entry of a
map is lost on the way: keys hold no floating-point number, so values of keys are equal only if they
are the same (`Value.Exact.eq_of_same`), and what is the same is read as one key. What is read in
turn is an element that comes about (`Native.element_of_ofValue`).
-/

namespace Recast

open Recipe

/-! ## Values without floating-point numbers -/

def Scalar.isFloat : Scalar → Bool
  | .float .. => true
  | _ => false

theorem Scalar.kind_ofCarrier (k : ScalarKind) (x : k.Carrier) : (ofCarrier k x).kind = k := by
  cases k <;> rfl

theorem Scalar.eq_of_same {a b : Scalar} (exact : a.isFloat = false) (h : a.same b = true) :
    a = b := by
  cases a <;> cases b <;> simp only [same, Bool.false_eq_true] at h
  · rw [beq_iff_eq.1 h]
  · next k word l word' =>
    simp only [Bool.and_eq_true, beq_iff_eq] at h
    obtain ⟨rfl, same⟩ := h
    rw [← k.wrap_value word, same, k.wrap_value]
  · cases exact
  · rw [beq_iff_eq.1 h]

namespace Value

def isFloat : Value → Bool
  | .scalar s => s.isFloat
  | _ => false

/-- No node is a floating-point number. -/
def Exact (v : Value) : Prop := v.Everywhere fun w => w.isFloat = false

theorem eq_of_sameEntries {a b : Entries}
    (h : ∀ e ∈ a, (∀ w, e.1.same w = true → e.1 = w) ∧ ∀ w, e.2.same w = true → e.2 = w)
    (same : sameEntries a b = true) : a = b := by
  induction a generalizing b with
  | nil => cases b <;> simp_all [sameEntries]
  | cons e a ih =>
    obtain ⟨⟨key, value⟩, rest⟩ := List.forall_mem_cons.1 h
    rcases e with ⟨k, v⟩
    rcases b with _ | ⟨⟨k', v'⟩, b⟩
    · simp [sameEntries] at same
    · simp only [sameEntries, Bool.and_eq_true] at same
      obtain rfl : k = k' := key k' same.1.1
      obtain rfl : v = v' := value v' same.1.2
      rw [ih rest same.2]

theorem eq_of_sameFields {a b : Fields} (h : ∀ f ∈ a, ∀ w, f.2.same w = true → f.2 = w)
    (same : sameFields a b = true) : a = b := by
  induction a generalizing b with
  | nil => cases b <;> simp_all [sameFields]
  | cons f a ih =>
    obtain ⟨head, rest⟩ := List.forall_mem_cons.1 h
    rcases f with ⟨name, v⟩
    rcases b with _ | ⟨⟨name', v'⟩, b⟩
    · simp [sameFields] at same
    · simp only [sameFields, Bool.and_eq_true, beq_iff_eq] at same
      obtain rfl : v = v' := head v' same.1.2
      rw [ih rest same.2, same.1.1]

theorem eq_of_sameItems {a b : List Value} (h : ∀ v ∈ a, ∀ w, v.same w = true → v = w)
    (same : sameItems a b = true) : a = b := by
  induction a generalizing b with
  | nil => cases b <;> simp_all [sameItems]
  | cons v a ih =>
    obtain ⟨head, rest⟩ := List.forall_mem_cons.1 h
    cases b with
    | nil => simp [sameItems] at same
    | cons w b =>
      simp only [sameItems, Bool.and_eq_true] at same
      rw [ih rest same.2, head _ same.1]

/-- **Without floating-point numbers, equal values are the same.** -/
theorem Exact.eq_of_same {v w : Value} (h : v.Exact) (same : v.same w = true) : v = w := by
  induction v using partsInduction generalizing w with
  | step v ih =>
    have part : ∀ c ∈ v.parts, ∀ w, c.same w = true → c = w := fun c hc w => ih c hc (h.part hc)
    cases v with
    | nil => cases w <;> simp_all [Value.same]
    | scalar s =>
      cases w <;> simp only [Value.same, Bool.false_eq_true] at same
      rw [Scalar.eq_of_same h.here same]
    | map key value entries =>
      cases w <;> simp only [Value.same, Bool.and_eq_true, beq_iff_eq, Bool.false_eq_true] at same
      obtain ⟨⟨rfl, rfl⟩, same⟩ := same
      rw [eq_of_sameEntries (fun e he => ⟨?_, ?_⟩) same]
      · exact part _ (mem_parts_map.2 ⟨e, he, .inl rfl⟩)
      · exact part _ (mem_parts_map.2 ⟨e, he, .inr rfl⟩)
    | struct name fields =>
      cases w <;> simp only [Value.same, Bool.and_eq_true, beq_iff_eq, Bool.false_eq_true] at same
      obtain ⟨rfl, same⟩ := same
      rw [eq_of_sameFields (fun f hf => part _ (List.mem_map_of_mem hf)) same]
    | seq item length items =>
      cases w <;> simp only [Value.same, Bool.and_eq_true, beq_iff_eq, Bool.false_eq_true] at same
      obtain ⟨⟨rfl, rfl⟩, same⟩ := same
      have items : ∀ v ∈ items, ∀ w, v.same w = true → v = w := part
      rw [eq_of_sameItems items same]
    | pointer pointee target =>
      cases w <;> simp only [Value.same, Bool.and_eq_true, beq_iff_eq, Bool.false_eq_true] at same
      obtain ⟨rfl, same⟩ := same
      rw [part target (List.mem_singleton_self target) _ same]
    | nilPointer pointee =>
      cases w <;> simp only [Value.same, beq_iff_eq, Bool.false_eq_true] at same
      rw [same]

end Value

namespace Entries

theorem collect_eq_putAll (pairs : Entries) :
    collect pairs = putAll (fun k v es => Entries.insert es k v) pairs := rfl

theorem forall_key_mem_collect {Q : Value → Prop} {pairs : Entries} (h : ∀ p ∈ pairs, Q p.1) :
    ∀ e ∈ collect pairs, Q e.1 := by
  induction pairs using List.reverseRecOn with
  | nil => simp [collect]
  | append_singleton pairs p ih =>
    obtain ⟨front, last⟩ := List.forall_mem_append.1 h
    intro e he
    rw [collect_eq_putAll, putAll_concat] at he
    rcases exists_key_of_mem_insert he with same | ⟨d, hd, same⟩
    · exact same ▸ last p (List.mem_singleton_self p)
    · exact same ▸ ih front d hd

/-- Entries whose keys hold no floating-point number are put over those of the same key. -/
theorem insert_puts : Puts Value.Exact fun k v (es : Entries) => Entries.insert es k v := by
  refine ⟨fun _ _ => rfl, fun key v d entries _ exact => ?_⟩
  simp only [Entries.insert]
  split
  · next same =>
    have same : d.1 = key := exact.eq_of_same same
    exact .inl ⟨same, by rw [same]⟩
  · exact .inr (.inr rfl)

end Entries

namespace Native

/-! ## Values of elements -/

/-- There is no floating-point number in the elements, and no value that might hold one. -/
def discrete : Native → Bool
  | .scalar (.float _) | .value => false
  | .scalar _ => true
  | .list t | .option t => t.discrete
  | .hashMap k v | .orderedMap k v => k.discrete && v.discrete

theorem discrete_of_ordered {t : Native} (h : t.ordered = true) : t.discrete = true := by
  induction t with
  | scalar k => cases k <;> first | rfl | cases h
  | value | hashMap => cases h
  | list t ih | option t ih => exact ih h
  | orderedMap k v ihKey ihValue =>
    obtain ⟨hk, hv⟩ := Bool.and_eq_true_iff.1 h
    exact Bool.and_eq_true_iff.2 ⟨ihKey hk, ihValue hv⟩

theorem exact_of_conforms {t : Native} (h : t.discrete = true) {v : Value}
    (hv : v.Conforms t.type) : v.Exact := by
  have entries : ∀ {k w : Native} {v : Value},
      (∀ {v : Value}, v.Conforms k.type → v.Exact) → (∀ {v : Value}, v.Conforms w.type → v.Exact) →
        v.Conforms (.map k.type w.type) → v.Exact := by
    intro k w v hk hw hv
    cases hv with
    | map keys values =>
      exact everywhere_map.2 ⟨rfl, fun e he => ⟨hk (keys e he), hw (values e he)⟩⟩
  induction t generalizing v with
  | scalar k =>
    cases hv with
    | scalar s => cases s <;> first | exact everywhere_scalar.2 rfl | cases h
  | value => cases h
  | list t ih =>
    cases hv with
    | seq _ each => exact everywhere_seq.2 ⟨rfl, fun v hv => ih h (each v hv)⟩
  | option t ih =>
    cases hv with
    | pointer each => exact everywhere_pointer.2 ⟨rfl, ih h each⟩
    | nilPointer => exact everywhere_nilPointer.2 rfl
  | hashMap k w ihKey ihValue | orderedMap k w ihKey ihValue =>
    obtain ⟨key, value⟩ := Bool.and_eq_true_iff.1 h
    exact entries (ihKey key) (ihValue value) hv

theorem toValue_map {k v : Native} (x : List (k.Carrier × v.Carrier)) :
    (hashMap k v).toValue x =
      .map k.type v.type (Entries.collect (x.map fun e => (k.toValue e.1, v.toValue e.2))) := by
  rw [Entries.collect, List.foldl_map]
  rfl

/-- **The value of an element is one of the native type.** -/
theorem conforms_toValue (t : Native) (x : t.Carrier) : (t.toValue x).Conforms t.type := by
  have entries : ∀ {k v : Native}, (∀ x : k.Carrier, (k.toValue x).Conforms k.type) →
      (∀ x : v.Carrier, (v.toValue x).Conforms v.type) → ∀ x : List (k.Carrier × v.Carrier),
        ((hashMap k v).toValue x).Conforms (.map k.type v.type) := by
    intro k v hk hv x
    rw [toValue_map]
    have keys : ∀ p ∈ x.map fun e => (k.toValue e.1, v.toValue e.2), p.1.Conforms k.type :=
      List.forall_mem_map.2 fun e _ => hk e.1
    have values : ∀ p ∈ x.map fun e => (k.toValue e.1, v.toValue e.2), p.2.Conforms v.type :=
      List.forall_mem_map.2 fun e _ => hv e.2
    exact .map (Entries.forall_key_mem_collect (Q := (·.Conforms k.type)) keys)
      (Entries.forall_mem_collect (Q := (·.Conforms v.type)) values)
  induction t with
  | scalar k => exact Value.conforms_scalar_iff.2 (Scalar.kind_ofCarrier k x)
  | value => exact .any _
  | list t ih =>
    refine .seq (by simp) fun v hv => ?_
    obtain ⟨y, -, rfl⟩ := List.mem_map.1 hv
    exact ih y
  | option t ih =>
    cases x with
    | none => exact .nilPointer _
    | some x => exact .pointer (ih x)
  | hashMap k v ihKey ihValue | orderedMap k v ihKey ihValue => exact entries ihKey ihValue x

/-! ## Reading what was written -/

/-- Keys that are told apart have values that are told apart, if these are read as the keys. -/
theorem distinct_toValue {k v : Native} (hk : k.ordered = true) {x : List (k.Carrier × v.Carrier)}
    (back : ∀ e ∈ x, k.ofValue (k.toValue e.1) = .ok e.1)
    (apart : x.Pairwise fun a b => k.compare a.1 b.1 ≠ .eq) :
    Entries.Distinct (x.map fun e => (k.toValue e.1, v.toValue e.2)) := by
  rw [Entries.Distinct, List.pairwise_map]
  refine apart.imp_of_mem fun {a b} ha hb other => ?_
  by_contra same
  rw [Bool.not_eq_false] at same
  have exact := exact_of_conforms (discrete_of_ordered hk) (conforms_toValue k a.1)
  have read := back a ha
  rw [exact.eq_of_same same, back b hb, Except.ok.injEq] at read
  exact other ((lawful_compare hk).eq_iff.2 read.symm)

/-- The entries of an ordered map are those of a map without an order. -/
theorem Element.apart {k v : Native} {x : List (k.Carrier × v.Carrier)}
    (h : (orderedMap k v).Element x) : (hashMap k v).Element x :=
  ⟨h.1, h.2.imp fun lower same => by simp [lower] at same⟩

theorem readsItems_toValue {t : Native} {xs : List t.Carrier}
    (h : ∀ x ∈ xs, t.ofValue (t.toValue x) = .ok x) :
    List.Forall₂ (fun v x => t.ofValue v = .ok x) (xs.map t.toValue) xs := by
  rw [List.forall₂_map_left_iff, List.forall₂_same]
  exact h

theorem readsEntries_toValue {k v : Native} {x : List (k.Carrier × v.Carrier)}
    (keys : ∀ e ∈ x, k.ofValue (k.toValue e.1) = .ok e.1)
    (values : ∀ e ∈ x, v.ofValue (v.toValue e.2) = .ok e.2) :
    ReadsEntries k v (x.map fun e => (k.toValue e.1, v.toValue e.2)) x := by
  rw [ReadsEntries, List.forall₂_map_left_iff, List.forall₂_same]
  exact fun e he => ⟨keys e he, values e he⟩

/-- The value of a map lists the entries, if its keys are read as what they were. -/
theorem toValue_map_of_back {k v : Native} (hk : k.ordered = true)
    {x : List (k.Carrier × v.Carrier)} (back : ∀ e ∈ x, k.ofValue (k.toValue e.1) = .ok e.1)
    (apart : x.Pairwise fun a b => k.compare a.1 b.1 ≠ .eq) :
    (hashMap k v).toValue x =
      .map k.type v.type (x.map fun e => (k.toValue e.1, v.toValue e.2)) := by
  rw [toValue_map, Entries.collect_of_distinct (distinct_toValue hk back apart)]

/-- **What was written is read again.** -/
theorem ofValue_toValue {t : Native} (ht : t.keyed = true) {x : t.Carrier} (hx : t.Element x) :
    t.ofValue (t.toValue x) = .ok x := by
  induction t with
  | scalar k => exact ofValue_scalar.2 rfl
  | value => rfl
  | list t ih => exact ofValue_seq.2 (readsItems_toValue fun y hy => ih ht (hx y hy))
  | option t ih =>
    cases x with
    | none => rfl
    | some x => exact ofValue_pointer.2 (ih ht (hx x rfl))
  | hashMap k v ihKey ihValue =>
    obtain ⟨hk, hv⟩ := Bool.and_eq_true_iff.1 ht
    have keys := fun e he => ihKey (keyed_of_ordered hk) (hx.1 e he).1
    have values := fun e he => ihValue hv (hx.1 e he).2
    have written := toValue_map_of_back hk keys hx.2
    rw [written]
    exact ofValue_hashMap.2
      ⟨x, readsEntries_toValue keys values, putAll_insertAtEnd (lawful_compare hk) hx.2⟩
  | orderedMap k v ihKey ihValue =>
    obtain ⟨hk, hv⟩ := Bool.and_eq_true_iff.1 ht
    have keys := fun e he => ihKey (keyed_of_ordered hk) (hx.1 e he).1
    have values := fun e he => ihValue hv (hx.1 e he).2
    have written : (orderedMap k v).toValue x = _ := toValue_map_of_back hk keys hx.apart.2
    rw [written]
    exact ofValue_orderedMap.2
      ⟨x, readsEntries_toValue keys values, putAll_insertByKey (lawful_compare hk) hx.2⟩

/-- The value of a map lists its entries, and no two of them have equal keys. -/
theorem toValue_map_of_element {k v : Native} (hk : k.ordered = true)
    {x : List (k.Carrier × v.Carrier)} (hx : (hashMap k v).Element x) :
    Entries.Distinct (x.map fun e => (k.toValue e.1, v.toValue e.2)) ∧
      (hashMap k v).toValue x =
        .map k.type v.type (x.map fun e => (k.toValue e.1, v.toValue e.2)) := by
  have back : ∀ e ∈ x, k.ofValue (k.toValue e.1) = .ok e.1 := fun e he =>
    ofValue_toValue (keyed_of_ordered hk) (hx.1 e he).1
  exact ⟨distinct_toValue hk back hx.2, toValue_map_of_back hk back hx.2⟩

/-! ## What is read -/

/-- Where pairs are read, so are the entries collected from them. -/
theorem ReadsEntries.collect {k v : Native} {pairs : Entries} {read : List (k.Carrier × v.Carrier)}
    (h : ReadsEntries k v pairs read) (exact : ∀ p ∈ pairs, p.1.Exact) :
    ∃ collected, ReadsEntries k v (Entries.collect pairs) collected ∧ Collects read collected := by
  have put : Collects pairs (Entries.collect pairs) := Entries.insert_puts.collects exact
  have each : ∀ e ∈ Entries.collect pairs, ∃ x : k.Carrier × v.Carrier,
      (k.ofValue e.1 = .ok x.1 ∧ v.ofValue e.2 = .ok x.2) ∧ x ∈ read := by
    intro e he
    obtain ⟨x, hx, reads⟩ := exists_right_of_forall₂ h e (put.mem e he)
    exact ⟨x, reads, hx⟩
  obtain ⟨collected, reads⟩ := exists_forall₂ each
  refine ⟨collected, reads.imp fun e x both => both.1, fun x hx => ?_, fun x hx => ?_⟩
  · obtain ⟨_, _, _, member⟩ := exists_left_of_forall₂ reads x hx
    exact member
  · obtain ⟨p, hp, key, -⟩ := exists_left_of_forall₂ h x hx
    obtain ⟨e, he, same⟩ := List.mem_map.1 (put.key p hp)
    obtain ⟨y, hy, ⟨key', -⟩, -⟩ := exists_right_of_forall₂ reads e he
    rw [same, key, Except.ok.injEq] at key'
    exact List.mem_map.2 ⟨y, hy, key'.symm⟩

/-- **What is read is an element that comes about**, whatever it is read from. -/
theorem element_of_ofValue {t : Native} (ht : t.keyed = true) {v : Value} {x : t.Carrier}
    (h : t.ofValue v = .ok x) : t.Element x := by
  have entries : ∀ {k w : Native} {entries read},
      (∀ {v : Value} {x : k.Carrier}, k.ofValue v = .ok x → k.Element x) →
      (∀ {v : Value} {x : w.Carrier}, w.ofValue v = .ok x → w.Element x) →
        ReadsEntries k w entries read → ∀ e ∈ read, k.Element e.1 ∧ w.Element e.2 := by
    intro k w entries read hk hw reads e he
    obtain ⟨_, -, key, value⟩ := exists_left_of_forall₂ reads e he
    exact ⟨hk key, hw value⟩
  induction t generalizing v with
  | scalar | value => trivial
  | list t ih =>
    cases v with
    | seq item length items =>
      intro y hy
      obtain ⟨v, -, read⟩ := exists_left_of_forall₂ (ofValue_seq.1 h) y hy
      exact ih ht read
    | _ => cases h
  | option t ih =>
    rintro y rfl
    cases v with
    | pointer pointee target => exact ih ht (ofValue_pointer.1 h)
    | _ => cases h
  | hashMap k w ihKey ihValue =>
    obtain ⟨hk, hw⟩ := Bool.and_eq_true_iff.1 ht
    have lawful := lawful_compare hk
    cases v with
    | map key value written =>
      obtain ⟨read, reads, rfl⟩ := ofValue_hashMap.1 h
      have each := entries (ihKey (keyed_of_ordered hk)) (ihValue hw) reads
      refine ⟨fun e he => each e ?_, ?_⟩
      · exact ((insertAtEnd_puts lawful _).collects fun _ _ => trivial).mem e he
      · exact putAll_invariant .nil (fun _ _ _ apart => insertAtEnd_apart lawful apart) read
    | _ => cases h
  | orderedMap k w ihKey ihValue =>
    obtain ⟨hk, hw⟩ := Bool.and_eq_true_iff.1 ht
    have lawful := lawful_compare hk
    cases v with
    | map key value written =>
      obtain ⟨read, reads, rfl⟩ := ofValue_orderedMap.1 h
      have each := entries (ihKey (keyed_of_ordered hk)) (ihValue hw) reads
      refine ⟨fun e he => each e ?_, ?_⟩
      · exact ((insertByKey_puts lawful _).collects fun _ _ => trivial).mem e he
      · exact putAll_invariant .nil (fun _ _ _ sorted => insertByKey_sorted lawful sorted) read
    | _ => cases h

end Native

end Recast
