import Recast.Proofs.Parts
import Recast.Proofs.Unfolding

/-!
Invariants of slots. A `Discipline` sorts slots by what they may hold, and says how the sort of a
container carries over to what is inside. Conversion by the standard recipes keeps every discipline:
`Discipline.convert_ensures` goes once through the recipes, the two merge modes and the pointers on
either side, for bounds on the budget and for typing alike.
-/

namespace Recast

open Outcome Recipe

def Value.isPointer : Value → Bool
  | .pointer .. | .nilPointer _ => true
  | _ => false

theorem Value.isPointer_eq_false {v : Value}
    (notLive : ∀ pointee target, v ≠ .pointer pointee target)
    (notNil : ∀ pointee, v ≠ .nilPointer pointee) : v.isPointer = false := by
  cases v with
  | pointer pointee target => exact absurd rfl (notLive pointee target)
  | nilPointer pointee => exact absurd rfl (notNil pointee)
  | _ => rfl

theorem Except.map_eq_ok {ε α β : Type} {f : α → β} {e : Except ε α} {y : β}
    (h : e.map f = .ok y) : ∃ x, e = .ok x ∧ f x = y := by
  cases e with
  | ok x => exact ⟨x, rfl, Except.ok.inj h⟩
  | error => cases h

structure Discipline (ι : Type) where
  /-- The sources that slots are converted from. -/
  Source : Value → Prop
  /-- What a slot of a sort may hold. -/
  Holds : ι → Value → Prop
  /-- The sorts of slots that lie inside a container. Into one behind a pointer, no pointer is put
  as it is. -/
  Open : ι → Prop
  source_part : ∀ {s c}, Source s → c ∈ s.parts → Source c
  source_name : ∀ name, Source (.string name)
  source_zero : ∀ {t : Ty}, Source (.nilPointer t) → Source t.zero
  text : ∃ i, Open i ∧ Holds i (.string "")
  untyped : ∀ {i s}, Source s → Open i ∨ s.isPointer = false → Holds i .nil → Holds i s
  reset : ∀ {i v}, Holds i v → Holds i v.reset
  scalar : ∀ {i s s'}, Holds i (.scalar s) → s'.kind = s.kind → Holds i (.scalar s')
  map : ∀ {i key value old}, Holds i (.map key value old) →
    ∃ k v, Open k ∧ Open v ∧ Holds k key.zero ∧ Holds v value.zero ∧ (∀ e ∈ old, Holds v e.2) ∧
      ∀ entries, (∀ e ∈ entries, Holds k e.1 ∧ Holds v e.2) → Holds i (.map key value entries)
  struct : ∀ {i name old}, Holds i (.struct name old) →
    ∃ sorts, (∀ j ∈ sorts, Open j) ∧ Fields.Sorted Holds sorts (old.map (·.1)) old ∧
      ∀ fields, Fields.Sorted Holds sorts (old.map (·.1)) fields → Holds i (.struct name fields)
  seq : ∀ {i item length old}, Holds i (.seq item length old) →
    ∃ j, Open j ∧ Holds j item.zero ∧ (∀ v ∈ old, Holds j v) ∧
      ∀ items, (∀ v ∈ items, Holds j v) →
        (∀ n, length = some n → old.length = n → items.length = n) →
          Holds i (.seq item length items)
  pointer : ∀ {i pointee target}, Holds i (.pointer pointee target) →
    ∃ j, Holds j target ∧ ∀ target', Holds j target' → Holds i (.pointer pointee target')
  nilPointer : ∀ {i pointee}, Holds i (.nilPointer pointee) →
    ∃ j, Holds j pointee.zero ∧ ∀ target, Holds j target → Holds i (.pointer pointee target)

theorem Scalar.coerce_kind {s s' : Scalar} {k : ScalarKind} (h : s.coerce k = .ok s') :
    s'.kind = k := by
  cases k <;> simp only [coerce] at h
  · obtain ⟨b, -, rfl⟩ := Except.map_eq_ok h
    rfl
  · obtain ⟨word, -, rfl⟩ := Except.map_eq_ok h
    rfl
  · obtain ⟨word, -, rfl⟩ := Except.map_eq_ok h
    rfl
  · cases h
    rfl

theorem Value.coerce_scalar {s d : Scalar} {v : Value}
    (h : ((Value.scalar s).coerce (.scalar d)).mapError Cause.scalar = .ok v) :
    ∃ s', v = .scalar s' ∧ s'.kind = d.kind := by
  cases coerced : s.coerce d.kind with
  | ok s' =>
    simp only [coerce, coerced, Except.map, Except.mapError, Except.ok.injEq] at h
    exact ⟨s', h.symm, Scalar.coerce_kind coerced⟩
  | error => simp [coerce, coerced, Except.map, Except.mapError] at h

/-! ## Filling lists of slots -/

section
variable {nested : Value → Value → Outcome Cause Value} {spent : Prop} {holds : Value → Prop}

theorem Recipe.fillItems_ensures {item : Ty} {old source : List Value} (hz : holds item.zero)
    (hn : ∀ s ∈ source, ∀ d, holds d → (nested s d).Ensures spent holds)
    (ho : ∀ v ∈ old, holds v) :
    (fillItems nested item old source).Ensures spent fun items =>
      items.length = source.length ∧ ∀ v ∈ items, holds v := by
  induction source generalizing old with
  | nil => simp [fillItems, Ensures]
  | cons s source ih =>
    have rest := fun old => @ih old (fun s' h => hn s' (List.mem_cons_of_mem s h))
    cases old with
    | nil =>
      refine (hn s List.mem_cons_self _ hz).useFor fun slot hslot => ?_
      have tail := rest [] (by simp)
      cases filled : fillItems nested item [] source with
      | done slots =>
        rw [filled] at tail
        exact ⟨by simp [tail.1], by simpa using ⟨hslot, tail.2⟩⟩
      | failed => trivial
      | exhausted => rwa [filled] at tail
    | cons o old =>
      obtain ⟨hhead, htail⟩ := List.forall_mem_cons.1 ho
      refine (hn s List.mem_cons_self o hhead).useFor fun slot hslot => ?_
      have tail := rest old htail
      cases filled : fillItems nested item old source with
      | done slots =>
        rw [filled] at tail
        exact ⟨by simp [tail.1], by simpa using ⟨hslot, tail.2⟩⟩
      | failed => trivial
      | exhausted => rwa [filled] at tail

theorem Recipe.fillSequence_ensures {item : Ty} {length : Option Nat} {old source : List Value}
    (hz : holds item.zero) (hn : ∀ s ∈ source, ∀ d, holds d → (nested s d).Ensures spent holds)
    (ho : ∀ v ∈ old, holds v) :
    (fillSequence nested item length old source).Ensures spent fun items =>
      (∀ v ∈ items, holds v) ∧ ∀ n, length = some n → old.length = n → items.length = n := by
  have fill := fillItems_ensures hz hn ho
  cases length with
  | none => exact fill.mono fun items h => ⟨h.2, by simp⟩
  | some n =>
    simp only [fillSequence]
    split
    · trivial
    · next fits =>
      cases filled : fillItems nested item old source with
      | done items =>
        rw [filled] at fill
        obtain ⟨count, converted⟩ := fill
        refine ⟨fun v hv => ?_, ?_⟩
        · simp only [padTo, List.mem_append, List.mem_replicate] at hv
          rcases hv with (hv | hv) | ⟨_, rfl⟩
          · exact converted v hv
          · exact ho v (List.mem_of_mem_drop (List.mem_of_mem_take hv))
          · exact hz
        · intro k hk hlength
          cases hk
          simp only [padTo, List.length_append, List.length_take, List.length_drop,
            List.length_replicate]
          omega
      | failed => trivial
      | exhausted => rwa [filled] at fill

theorem Recipe.rebuild_ensures {keyType valueType : Ty} {previous? : Value → Option Value}
    {holdsKey : Value → Prop} {pairs : Entries} {r : Rebuilt} (hk : holdsKey keyType.zero)
    (hv : ∀ key, holds ((previous? key).getD valueType.zero))
    (hnk : ∀ p ∈ pairs, ∀ d, holdsKey d → (nested p.1 d).Ensures spent holdsKey)
    (hnv : ∀ p ∈ pairs, ∀ d, holds d → (nested p.2 d).Ensures spent holds)
    (hr : ∀ e ∈ r.entries, holdsKey e.1 ∧ holds e.2) :
    (rebuild nested keyType valueType previous? r pairs).Ensures spent fun r =>
      ∀ e ∈ r.entries, holdsKey e.1 ∧ holds e.2 := by
  induction pairs generalizing r with
  | nil => exact hr
  | cons p pairs ih =>
    obtain ⟨headKey, tailKey⟩ := List.forall_mem_cons.1 hnk
    obtain ⟨headValue, tailValue⟩ := List.forall_mem_cons.1 hnv
    refine (headKey _ hk).useFor fun key hkey => (headValue _ (hv key)).useFor fun v hval => ?_
    apply ih tailKey tailValue
    intro e he
    unfold Rebuilt.put at he
    split at he
    · next i _ =>
      obtain ⟨j, hj⟩ := List.mem_iff_getElem?.1 he
      rw [List.getElem?_modify] at hj
      obtain ⟨old, at_j, rfl⟩ := Option.map_eq_some_iff.1 hj
      have held := hr old (List.mem_of_getElem? at_j)
      by_cases hij : i = j
      · simpa [hij] using ⟨held.1, hval⟩
      · simpa [hij] using held
    · rcases List.mem_append.1 he with he | he
      · exact hr e he
      · rw [List.mem_singleton.1 he]
        exact ⟨hkey, hval⟩

theorem Recipe.fillMap_ensures {keyType valueType : Ty} {old pairs : Entries}
    {holdsKey : Value → Prop} (hk : holdsKey keyType.zero) (hv : holds valueType.zero)
    (ho : ∀ e ∈ old, holds e.2)
    (hnk : ∀ p ∈ pairs, ∀ d, holdsKey d → (nested p.1 d).Ensures spent holdsKey)
    (hnv : ∀ p ∈ pairs, ∀ d, holds d → (nested p.2 d).Ensures spent holds) :
    (fillMap nested keyType valueType old pairs).Ensures spent fun entries =>
      ∀ e ∈ entries, holdsKey e.1 ∧ holds e.2 := by
  refine Ensures.useFor (rebuild_ensures hk ?_ hnk hnv (by simp [Rebuilt.empty])) fun r hr => hr
  intro key
  cases found : (KeyIndex.ofEntries old).position? old key with
  | none => exact hv
  | some i =>
    cases at_i : old[i]? with
    | none => simpa [at_i] using hv
    | some e => simpa [at_i] using ho e (List.mem_of_getElem? at_i)

theorem Recipe.assignField_ensures {ι : Type} {holdsSort : ι → Value → Prop} {sorts : List ι}
    {names : List String} {skip : Bool} {struct name : String} {v : Value} {fields : Fields}
    (hn : ∀ i ∈ sorts, ∀ d, holdsSort i d → (nested v d).Ensures spent (holdsSort i))
    (hf : fields.Sorted holdsSort sorts names) :
    (assignField nested skip struct name v fields).Ensures spent
      (Fields.Sorted holdsSort sorts names) := by
  obtain ⟨rfl, hf⟩ := hf
  induction hf with
  | nil =>
    simp only [assignField]
    split
    · exact ⟨rfl, .nil⟩
    · trivial
  | @cons field i fields sorts head tail ih =>
    obtain ⟨headField, tailFields⟩ := List.forall_mem_cons.1 hn
    simp only [assignField]
    split
    · exact ((headField _ head).mono fun slot hslot => ⟨rfl, .cons hslot tail⟩).map
    · refine ((ih tailFields).mono fun fields' h => ?_).map
      exact ⟨congrArg (field.1 :: ·) h.1, .cons head h.2⟩

end

/-! ## Actions keep every discipline -/

namespace Discipline

variable {ι : Type} (D : Discipline ι) {spent : Prop} {σ : Settings}
  {f : Value → Value → Outcome ConversionError Value} {src : Value}

theorem source_elem {v : Value} (h : D.Source v) : D.Source v.elem := by
  fun_induction Value.elem v with
  | case1 _ target ih => exact ih (D.source_part h (List.mem_singleton_self target))
  | case2 => exact h

theorem source_below {c : Value} (hs : D.Source src) (hc : c ∈ src.elem.parts) :
    c.height < src.height ∧ D.Source c :=
  ⟨Value.height_lt_of_mem_parts_elem hc, D.source_part (D.source_elem hs) hc⟩

theorem source_entry {key value : Ty} {entries : Entries} (hs : D.Source src)
    (he : src.elem = .map key value entries) {e : Value × Value} (hmem : e ∈ entries) :
    (e.1.height < src.height ∧ D.Source e.1) ∧ e.2.height < src.height ∧ D.Source e.2 := by
  have part : ∀ c, c = e.1 ∨ c = e.2 → c ∈ src.elem.parts := fun c hc =>
    he ▸ Value.mem_parts_map.2 ⟨e, hmem, hc⟩
  exact ⟨D.source_below hs (part e.1 (Or.inl rfl)), D.source_below hs (part e.2 (Or.inr rfl))⟩

theorem source_field {name : String} {fields : Fields} (hs : D.Source src)
    (he : src.elem = .struct name fields) {field : String × Value} (hmem : field ∈ fields) :
    field.2.height < src.height ∧ D.Source field.2 :=
  D.source_below hs (he ▸ List.mem_map_of_mem hmem)

theorem holds_start {dst : Value} {i : ι} (h : D.Holds i dst) : D.Holds i (σ.start dst) := by
  unfold Settings.start Context.start
  split
  · exact h
  · exact D.reset h

/-- Writing what pointers lead to keeps the sorts of the slots on the way. -/
theorem writeElem_ensures {write : Value → Outcome Cause Value} {dst : Value} {i : ι}
    (h : D.Holds i dst)
    (hw : ∀ j, D.Holds j dst.elem → (write dst.elem).Ensures spent (D.Holds j)) :
    (dst.writeElem write).Ensures spent (D.Holds i) := by
  fun_induction Value.writeElem write dst generalizing i with
  | case1 pointee target ih =>
    obtain ⟨j, hj, close⟩ := D.pointer h
    exact ((ih hj hw).mono close).map
  | case2 v hv =>
    rw [Value.elem_eq_self hv] at hw
    exact hw i h

theorem writeFields_ensures {write : String → Fields → Outcome Cause Fields} {dst : Value} {i : ι}
    (h : D.Holds i dst)
    (hw : ∀ name fields sorts names, (∀ j ∈ sorts, D.Open j) →
      Fields.Sorted D.Holds sorts names fields →
      (write name fields).Ensures spent (Fields.Sorted D.Holds sorts names)) :
    (writeFields write dst).Ensures spent (D.Holds i) := by
  apply D.writeElem_ensures h
  intro j hj
  cases hd : dst.elem with
  | struct name old =>
    rw [hd] at hj
    obtain ⟨sorts, opens, held, close⟩ := D.struct hj
    exact ((hw name old sorts _ opens held).mono fun fields h => close fields h).map
  | _ => trivial

variable (hf : ∀ s d i, s.height < src.height → D.Source s → D.Open i → D.Holds i d →
  (f s d).Ensures spent (D.Holds i))
include hf

theorem fillTarget_ensures {pairs : Entries} {dst : Value} {i : ι} (h : D.Holds i dst)
    (hp : ∀ p ∈ pairs, (p.1.height < src.height ∧ D.Source p.1) ∧
      p.2.height < src.height ∧ D.Source p.2) :
    (fillTarget ⟨σ, f⟩ pairs dst).Ensures spent (D.Holds i) := by
  apply D.writeElem_ensures h
  intro j hj
  cases hd : dst.elem with
  | map keyType valueType old =>
    rw [hd] at hj
    obtain ⟨k, v, openKey, openValue, zeroKey, zeroValue, held, close⟩ := D.map hj
    refine (Ensures.mono (fillMap_ensures zeroKey zeroValue held ?_ ?_) fun es h => close es h).map
    · intro p hmem d hd
      obtain ⟨⟨lower, source⟩, -⟩ := hp p hmem
      exact (hf _ _ _ lower source openKey hd).mapError _
    · intro p hmem d hd
      obtain ⟨-, lower, source⟩ := hp p hmem
      exact (hf _ _ _ lower source openValue hd).mapError _
  | _ => trivial

theorem mapToMap_ensures {dst : Value} {i : ι} (hs : D.Source src) (h : D.Holds i dst) :
    (mapToMap ⟨σ, f⟩ src dst).Ensures spent (D.Holds i) := by
  unfold mapToMap
  cases he : src.elem with
  | map key value entries => exact D.fillTarget_ensures hf h fun p hp => D.source_entry hs he hp
  | _ => trivial

theorem structToMap_ensures {dst : Value} {i : ι} (hs : D.Source src) (h : D.Holds i dst) :
    (structToMap ⟨σ, f⟩ src dst).Ensures spent (D.Holds i) := by
  unfold structToMap
  cases he : src.elem with
  | struct name fields =>
    apply D.fillTarget_ensures hf h
    intro p hp
    obtain ⟨field, hfield, rfl⟩ := List.mem_map.1 hp
    obtain ⟨lower, source⟩ := D.source_field hs he (List.mem_reverse.1 hfield)
    refine ⟨⟨?_, D.source_name field.1⟩, lower, source⟩
    exact Nat.lt_of_le_of_lt (Nat.zero_le _) lower
  | _ => trivial

theorem mapToStruct_ensures {dst : Value} {i : ι} (hs : D.Source src) (h : D.Holds i dst) :
    (mapToStruct ⟨σ, f⟩ src dst).Ensures spent (D.Holds i) := by
  unfold mapToStruct
  cases he : src.elem with
  | map key value entries =>
    apply D.writeFields_ensures h
    intro name fields sorts names opens held
    refine Ensures.foldSteps (fun entry hentry slot hslot => ?_) held
    obtain ⟨⟨lowerKey, sourceKey⟩, lowerValue, sourceValue⟩ := D.source_entry hs he hentry
    obtain ⟨t, openText, text⟩ := D.text
    refine ((hf _ _ _ lowerKey sourceKey openText text).mapError _).useFor fun key _ => ?_
    exact assignField_ensures
      (fun j hj d hd => (hf _ _ _ lowerValue sourceValue (opens j hj) hd).mapError _) hslot
  | _ => trivial

theorem structToStruct_ensures {dst : Value} {i : ι} (hs : D.Source src) (h : D.Holds i dst) :
    (structToStruct ⟨σ, f⟩ src dst).Ensures spent (D.Holds i) := by
  unfold structToStruct
  cases he : src.elem with
  | struct name source =>
    apply D.writeFields_ensures h
    intro name fields sorts names opens held
    refine Ensures.foldSteps (fun field hfield slot hslot => ?_) held
    obtain ⟨lower, source⟩ := D.source_field hs he hfield
    exact assignField_ensures
      (fun j hj d hd => (hf _ _ _ lower source (opens j hj) hd).mapError _) hslot
  | _ => trivial

theorem sequenceToSequence_ensures {dst : Value} {i : ι} (hs : D.Source src) (h : D.Holds i dst) :
    (sequenceToSequence ⟨σ, f⟩ src dst).Ensures spent (D.Holds i) := by
  unfold sequenceToSequence
  cases he : src.elem with
  | seq sourceItem sourceLength source =>
    apply D.writeElem_ensures h
    intro j hj
    cases hd : dst.elem with
    | seq item length old =>
      rw [hd] at hj
      obtain ⟨k, openItem, zero, held, close⟩ := D.seq hj
      refine (Ensures.mono (fillSequence_ensures zero ?_ held) fun items h =>
        close items h.1 h.2).map
      intro s hsource d hd
      obtain ⟨lower, source⟩ := D.source_below hs (he ▸ hsource : s ∈ src.elem.parts)
      exact (hf _ _ _ lower source openItem hd).mapError _
    | _ => trivial
  | _ => trivial

/-- Each standard action keeps the sort of the slot that it is chosen for. -/
theorem chosen_ensures {dst : Value} {action : Action} {i : ι} (hs : D.Source src)
    (h : D.Holds i dst) (found : chosen src dst = some action) :
    (action ⟨σ, f⟩ src dst).Ensures spent (D.Holds i) := by
  rcases exact_or_byShape found with ⟨s, d, rfl, rfl, rfl⟩ | ⟨s, old, rfl, rfl, rfl⟩ |
    ⟨items, s, rfl, rfl, rfl⟩ | ⟨items, s, rfl, rfl, rfl⟩ | found
  · refine Ensures.ofExcept fun v hv => ?_
    obtain ⟨s', rfl, same⟩ := Value.coerce_scalar hv
    exact D.scalar h same
  · obtain ⟨j, -, zero, -, close⟩ := D.seq h
    refine close _ (fun v hv => ?_) (by simp)
    obtain ⟨byte, -, rfl⟩ := List.mem_map.1 hv
    exact D.scalar zero rfl
  · refine Ensures.ofExcept fun v hv => ?_
    obtain ⟨bytes, -, rfl⟩ := Except.map_eq_ok hv
    exact D.scalar h rfl
  · refine Ensures.ofExcept fun v hv => ?_
    obtain ⟨chars, -, rfl⟩ := Except.map_eq_ok hv
    exact D.scalar h rfl
  · unfold byShape at found
    split at found <;> cases found
    · exact D.writeElem_ensures h fun j hj => D.reset hj
    · exact D.writeElem_ensures h fun j hj => D.reset hj
    · exact D.mapToMap_ensures hf hs h
    · exact D.structToMap_ensures hf hs h
    · exact D.mapToStruct_ensures hf hs h
    · exact D.structToStruct_ensures hf hs h
    · exact D.sequenceToSequence_ensures hf hs h

omit hf

theorem follow_ensures {dst : Value} {i : ι} (hs : D.Source src)
    (ho : D.Open i ∨ src.isPointer = false) (h : D.Holds i dst)
    (lower : ∀ s, D.Source s → s.height < src.height → D.Open i →
      (f s dst).Ensures spent (D.Holds i))
    (shorter : ∀ d j, src.isPointer = false → D.Holds j d → d.way < dst.way →
      (f src d).Ensures spent (D.Holds j)) :
    (Settings.follow f src dst).Ensures spent (D.Holds i) := by
  unfold Settings.follow
  split
  · next pointee target =>
    have member : target ∈ (Value.pointer pointee target).parts := List.mem_singleton_self target
    have openSlot := ho.resolve_right (by simp [Value.isPointer])
    exact lower target (D.source_part hs member) (Value.height_lt_of_mem_parts member) openSlot
  · next pointee =>
    have openSlot := ho.resolve_right (by simp [Value.isPointer])
    apply lower _ (D.source_zero hs) _ openSlot
    exact Nat.lt_succ_of_le (Ty.height_zero_le pointee)
  · next pointee target notLive notNil =>
    have plain := Value.isPointer_eq_false notLive notNil
    obtain ⟨j, hj, close⟩ := D.pointer h
    exact ((shorter target j plain hj (by simp only [Value.way]; omega)).mono close).map
  · next pointee notLive notNil =>
    have plain := Value.isPointer_eq_false notLive notNil
    obtain ⟨j, hj, close⟩ := D.nilPointer h
    have nearer := Ty.way_zero pointee
    exact ((shorter pointee.zero j plain hj (by simp only [Value.way]; omega)).mono close).map
  · trivial

/-- **Conversion keeps every discipline.** It spends its budget only where that is allowed: either
anywhere, or nowhere, if the discipline bounds the pointers ahead by `m` and the budget is past
`src.height * (m + 1) + dst.way`. -/
theorem convert_ensures {m : Nat} (hm : spent ∨ ∀ i v, D.Holds i v → v.way ≤ m) (budget : Nat)
    {src dst : Value} {i : ι} (hs : D.Source src) (ho : D.Open i ∨ src.isPointer = false)
    (h : D.Holds i dst) (hb : spent ∨ src.height * (m + 1) + dst.way < budget) :
    ((Context.standard σ).convert budget src dst).Ensures spent (D.Holds i) := by
  induction budget generalizing src dst i with
  | zero => exact hb.resolve_right (by simp)
  | succ budget ih =>
    -- A lower source makes up for whatever way lies ahead in the slot.
    have enough : ∀ (s d : Value) j, s.height < src.height → D.Holds j d →
        spent ∨ s.height * (m + 1) + d.way < budget := by
      intro s d j lower hd
      rcases hb with hb | hb
      · exact Or.inl hb
      · refine hm.imp_right fun hm => ?_
        have bound := hm j d hd
        have descent := Nat.mul_le_mul_right (m + 1) (Nat.succ_le_of_lt lower)
        rw [Nat.succ_mul] at descent
        omega
    have started : D.Holds i (σ.start dst) := D.holds_start h
    rw [Settings.convert_succ]
    unfold Settings.step
    split
    · next empty =>
      cases dst <;> cases empty
      exact D.untyped hs ho h
    · split
      · next action found =>
        refine (D.chosen_ensures ?_ hs started found).mapError _
        intro s d j lower source openSlot hd
        exact ih source (Or.inl openSlot) hd (enough s d j lower hd)
      · apply D.follow_ensures hs ho started
        · intro s source lower openSlot
          exact ih source (Or.inl openSlot) started (enough s _ i lower started)
        · intro d j plain hd nearer
          have := σ.way_start dst
          exact ih hs (Or.inr plain) hd (hb.imp_right fun hb => by omega)

/-- Whatever the budget, a conversion that is done keeps the sort of its slot. -/
theorem convert_keeps (budget : Nat) {src dst : Value} {i : ι} (hs : D.Source src)
    (ho : D.Open i ∨ src.isPointer = false) (h : D.Holds i dst) :
    ((Context.standard σ).convert budget src dst).Ensures True (D.Holds i) :=
  D.convert_ensures (m := 0) (Or.inl trivial) budget hs ho h (Or.inl trivial)

end Discipline

end Recast
