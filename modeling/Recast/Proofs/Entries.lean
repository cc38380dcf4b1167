import Recast.Proofs.Outcome
import Recast.Proofs.Sameness
import Recast.Recipe.Maps

/-!
The entries of a map that is filled. The index of text keys finds what a search from the front would
find, so putting an entry is `Entries.insert`, and filling a map collects the converted pairs
(`fillMap_eq_done`). Since equality of keys is symmetric and transitive, entries look the same from
keys that are equal, and no two keys of a filled map are.
-/

namespace Recast

namespace Value

theorem beq_string (s t : String) : (Value.string s == .string t) = (s == t) := by
  simp [BEq.beq, same, Scalar.same]

end Value

namespace KeyIndex

/-- The index knows the first position of every text key. -/
def Finds (index : KeyIndex) (entries : Entries) : Prop :=
  ∀ s, index.positions[s]? = entries.findIdx? (·.1 == .string s)

theorem finds_empty : empty.Finds [] := fun s => by simp [empty]

theorem Finds.record {index : KeyIndex} {entries : Entries} (h : index.Finds entries)
    (key v : Value) : (index.record key entries.length).Finds (entries ++ [(key, v)]) := by
  intro t
  have known := h t
  rw [List.findIdx?_append]
  unfold KeyIndex.record
  split
  · next s =>
    rw [Std.HashMap.getElem?_insertIfNew]
    by_cases same : s = t
    · subst same
      cases found : entries.findIdx? (·.1 == .string s) with
      | none =>
        have absent : s ∉ index.positions := by
          rw [Std.HashMap.mem_iff_isSome_getElem?, known, found]
          simp
        simp [absent, List.findIdx?_cons, Value.beq_string]
      | some i =>
        have present : s ∈ index.positions := by
          rw [Std.HashMap.mem_iff_isSome_getElem?, known, found]
          rfl
        rw [if_neg (by simp [present]), known, found, Option.some_or]
    · simp [same, known, List.findIdx?_cons, Value.beq_string]
  · next other =>
    have notText : (key == .string t) = false := by
      cases key with
      | scalar s =>
        cases s with
        | string s => exact absurd rfl (other s)
        | _ => simp [BEq.beq, Value.same, Scalar.same]
      | _ => simp [BEq.beq, Value.same]
    simp [known, List.findIdx?_cons, notText]

theorem finds_ofEntries (entries : Entries) : (ofEntries entries).Finds entries := by
  suffices grown : ∀ (rest front : Entries) (index : KeyIndex), index.Finds front →
      ((rest.zipIdx front.length).foldl (fun index entry => index.record entry.1.1 entry.2)
        index).Finds (front ++ rest) from
    grown entries [] empty finds_empty
  intro rest
  induction rest with
  | nil => exact fun front index h => by simpa using h
  | cons e rest ih =>
    intro front index h
    have next := ih (front ++ [e]) _ (h.record e.1 e.2)
    simpa using next

theorem Finds.position?_eq {index : KeyIndex} {entries : Entries} (h : index.Finds entries)
    (key : Value) : index.position? entries key = entries.findIdx? (·.1 == key) := by
  unfold position?
  split
  · exact h _
  · rfl

end KeyIndex

/-! ## Looking up and inserting -/

namespace Entries

theorem get?_cons (e : Value × Value) (entries : Entries) (key : Value) :
    get? (e :: entries) key = if e.1 == key then some e.2 else get? entries key := by
  simp only [get?, List.find?_cons]
  split <;> simp_all

theorem position_get? (entries : Entries) (key : Value) :
    ((entries.findIdx? (·.1 == key)).bind fun i => entries[i]?.map (·.2)) = entries.get? key := by
  induction entries with
  | nil => rfl
  | cons e entries ih =>
    rw [get?_cons, List.findIdx?_cons]
    split
    · rfl
    · rw [← ih]
      cases entries.findIdx? (·.1 == key) <;> rfl

theorem insert_of_findIdx?_eq_some {entries : Entries} {key : Value} {i : Nat}
    (h : entries.findIdx? (·.1 == key) = some i) (v : Value) :
    entries.insert key v = entries.modify i fun e => (e.1, v) := by
  induction entries generalizing i with
  | nil => simp at h
  | cons e entries ih =>
    rw [List.findIdx?_cons] at h
    split at h
    · next found =>
      cases h
      simp [insert, found]
    · next passed =>
      obtain ⟨j, hj, rfl⟩ := Option.map_eq_some_iff.1 h
      simp [insert, passed, ih hj]

theorem insert_of_findIdx?_eq_none {entries : Entries} {key : Value}
    (h : entries.findIdx? (·.1 == key) = none) (v : Value) :
    entries.insert key v = entries ++ [(key, v)] := by
  induction entries with
  | nil => rfl
  | cons e entries ih =>
    rw [List.findIdx?_cons] at h
    split at h
    · cases h
    · next passed => simp [insert, passed, ih (by simpa using h)]

/-- A map looks the same from keys that are equal. -/
theorem get?_congr (entries : Entries) {k k' : Value} (h : k == k') :
    entries.get? k = entries.get? k' := by
  simp only [get?, Value.beq_congr h]

theorem get?_eq_none_of_ne_self (entries : Entries) {key : Value} (h : (key == key) = false) :
    entries.get? key = none := by
  have never : ∀ e ∈ entries, ¬(e.1 == key) := by
    intro e _ equal
    have back : key == e.1 := by rwa [Value.beq_comm]
    rw [Value.beq_trans back equal] at h
    cases h
  rw [get?, List.find?_eq_none.2 (by simpa using never)]
  rfl

/-! ## Entries under keys of their own -/

/-- No two keys are equal. -/
def Distinct (entries : Entries) : Prop := entries.Pairwise fun a b => (a.1 == b.1) = false

theorem distinct_iff_keys {entries : Entries} :
    entries.Distinct ↔ (entries.map (·.1)).Pairwise fun k l => (k == l) = false := by
  rw [List.pairwise_map, Distinct]

theorem Distinct.perm {entries entries' : Entries} (h : entries.Distinct)
    (order : entries'.Perm entries) : entries'.Distinct :=
  (order.pairwise_iff fun {a b} apart => Value.beq_comm a.1 b.1 ▸ apart).2 h

theorem Distinct.get?_of_mem {entries : Entries} (h : entries.Distinct)
    {e : Value × Value} (he : e ∈ entries) (self : e.1 == e.1) : entries.get? e.1 = some e.2 := by
  induction h with
  | nil => simp at he
  | @cons d entries apart rest ih =>
    rw [get?_cons]
    rcases List.mem_cons.1 he with rfl | he
    · rw [if_pos self]
    · rw [if_neg (by simp [apart e he]), ih he]

theorem exists_key_of_mem_insert {entries : Entries} {key v : Value} {e : Value × Value}
    (h : e ∈ entries.insert key v) : e.1 = key ∨ ∃ d ∈ entries, d.1 = e.1 := by
  induction entries with
  | nil => exact Or.inl (by rw [List.mem_singleton.1 h])
  | cons d entries ih =>
    simp only [Entries.insert] at h
    split at h
    · rcases List.mem_cons.1 h with rfl | h
      · exact Or.inr ⟨d, List.mem_cons_self, rfl⟩
      · exact Or.inr ⟨e, List.mem_cons_of_mem d h, rfl⟩
    · rcases List.mem_cons.1 h with rfl | h
      · exact Or.inr ⟨_, List.mem_cons_self, rfl⟩
      · rcases ih h with same | ⟨d', hd', same⟩
        · exact Or.inl same
        · exact Or.inr ⟨d', List.mem_cons_of_mem d hd', same⟩

theorem Distinct.insert {entries : Entries} (h : entries.Distinct) (key v : Value) :
    (entries.insert key v).Distinct := by
  induction h with
  | nil => exact List.pairwise_singleton _ _
  | @cons e entries apart rest ih =>
    simp only [Entries.insert]
    by_cases here : e.1 == key
    · rw [if_pos here]
      exact .cons apart rest
    · rw [if_neg here]
      refine .cons (fun e' he' => ?_) ih
      rcases exists_key_of_mem_insert he' with same | ⟨d, hd, same⟩
      · simpa [same] using here
      · rw [← same]
        exact apart d hd

/-- The entries of pairs that are put one after the other. -/
def collect (pairs : Entries) : Entries := pairs.foldl (fun es p => es.insert p.1 p.2) []

theorem collect_distinct (pairs : Entries) : (collect pairs).Distinct := by
  suffices kept : ∀ (rest es : Entries), es.Distinct →
      (rest.foldl (fun es p => es.insert p.1 p.2) es).Distinct from kept pairs [] .nil
  intro rest
  induction rest with
  | nil => exact fun _ h => h
  | cons p rest ih => exact fun es h => ih _ (h.insert p.1 p.2)

theorem collect_of_distinct {pairs : Entries} (h : pairs.Distinct) : collect pairs = pairs := by
  suffices grown : ∀ (rest front : Entries), (front ++ rest).Distinct →
      rest.foldl (fun es p => es.insert p.1 p.2) front = front ++ rest from grown pairs [] h
  intro rest
  induction rest with
  | nil => simp
  | cons p rest ih =>
    intro front h
    have absent : front.findIdx? (·.1 == p.1) = none := by
      rw [List.findIdx?_eq_none_iff]
      intro e he
      exact (List.pairwise_append.1 h).2.2 e he p List.mem_cons_self
    rw [List.foldl_cons, insert_of_findIdx?_eq_none absent, ih]
    · simp
    · simpa using h

/-- The same keys, and values that `R` relates under them. -/
def Related (R : Value → Value → Value → Prop) (entries entries' : Entries) : Prop :=
  List.Forall₂ (fun e e' => e'.1 = e.1 ∧ R e.1 e.2 e'.2) entries entries'

theorem Related.insert {R : Value → Value → Value → Prop}
    (hR : ∀ k k' v w, k' == k → R k v w → R k' v w) {es es' : Entries} (h : Related R es es')
    {key v w : Value} (hv : R key v w) : Related R (es.insert key v) (es'.insert key w) := by
  induction h with
  | nil => exact .cons ⟨rfl, hv⟩ .nil
  | @cons e e' es es' head tail ih =>
    obtain ⟨sameKey, related⟩ := head
    simp only [Entries.insert, sameKey]
    by_cases here : e.1 == key
    · rw [if_pos here, if_pos here]
      exact .cons ⟨rfl, hR _ _ _ _ here hv⟩ tail
    · rw [if_neg here, if_neg here]
      exact .cons ⟨rfl, related⟩ ih

/-- Collecting respects what relates values under their keys, if equal keys make no difference. -/
theorem Related.collect {R : Value → Value → Value → Prop}
    (hR : ∀ k k' v w, k' == k → R k v w → R k' v w) {pairs pairs' : Entries}
    (h : Related R pairs pairs') : Related R (collect pairs) (collect pairs') := by
  suffices grown : ∀ es es' : Entries, Related R es es' →
      Related R (pairs.foldl (fun (es : Entries) p => es.insert p.1 p.2) es)
        (pairs'.foldl (fun (es : Entries) p => es.insert p.1 p.2) es') from grown [] [] .nil
  induction h with
  | nil => exact fun _ _ h => h
  | @cons p p' pairs pairs' head tail ih =>
    intro es es' h
    obtain ⟨sameKey, related⟩ := head
    simp only [List.foldl_cons, sameKey]
    exact ih _ _ (h.insert hR related)

/-- What is found under a key in related entries is related under that key. -/
theorem Related.get? {R : Value → Value → Value → Prop}
    (hR : ∀ k k' v w, k' == k → R k v w → R k' v w) {es es' : Entries} (h : Related R es es')
    (key : Value) :
    match es.get? key with
    | none => es'.get? key = none
    | some v => ∃ w, es'.get? key = some w ∧ R key v w := by
  induction h with
  | nil => rfl
  | @cons e e' es es' head tail ih =>
    obtain ⟨sameKey, related⟩ := head
    rw [get?_cons, get?_cons, sameKey]
    by_cases here : e.1 == key
    · rw [if_pos here, if_pos here]
      rw [Value.beq_comm] at here
      exact ⟨e'.2, rfl, hR _ _ _ _ here related⟩
    · rw [if_neg here, if_neg here]
      exact ih

theorem forall_mem_collect {Q : Value → Prop} {pairs : Entries} (h : ∀ p ∈ pairs, Q p.2) :
    ∀ e ∈ collect pairs, Q e.2 := by
  have inserted : ∀ (es : Entries) (key v : Value), (∀ e ∈ es, Q e.2) → Q v →
      ∀ e ∈ es.insert key v, Q e.2 := by
    intro es key v hes hv
    induction es with
    | nil => simpa [Entries.insert] using hv
    | cons d es ih =>
      obtain ⟨head, rest⟩ := List.forall_mem_cons.1 hes
      simp only [Entries.insert]
      split
      · exact List.forall_mem_cons.2 ⟨hv, rest⟩
      · exact List.forall_mem_cons.2 ⟨head, ih rest⟩
  suffices grown : ∀ es : Entries, (∀ e ∈ es, Q e.2) →
      ∀ e ∈ pairs.foldl (fun (es : Entries) p => es.insert p.1 p.2) es, Q e.2 from
    grown [] (by simp)
  induction pairs with
  | nil => exact fun _ hes => hes
  | cons p pairs ih =>
    intro es hes
    obtain ⟨head, rest⟩ := List.forall_mem_cons.1 h
    exact ih rest _ (inserted es p.1 p.2 hes head)

end Entries

/-! ## Filling a map -/

namespace Recipe

open Outcome

/-- The index of the entries put so far knows them. -/
def Rebuilt.Valid (r : Rebuilt) : Prop := r.index.Finds r.entries

theorem keys_modify (entries : Entries) (i : Nat) (v : Value) :
    (entries.modify i fun e => (e.1, v)).map (·.1) = entries.map (·.1) := by
  induction entries generalizing i with
  | nil => simp
  | cons e entries ih => cases i <;> simp [ih]

theorem Rebuilt.Valid.put {r : Rebuilt} (h : r.Valid) (key v : Value) :
    (r.put key v).entries = r.entries.insert key v ∧ (r.put key v).Valid := by
  have position := h.position?_eq key
  unfold Rebuilt.put
  split
  · next i found =>
    rw [found] at position
    refine ⟨(Entries.insert_of_findIdx?_eq_some position.symm v).symm, fun s => ?_⟩
    have kept : ∀ es : Entries, es.findIdx? (·.1 == .string s) =
        (es.map (·.1)).findIdx? (· == .string s) := fun es => by
      rw [List.findIdx?_map]
      rfl
    simp only [kept, keys_modify]
    rw [← kept]
    exact h s
  · next absent =>
    rw [absent] at position
    exact ⟨(Entries.insert_of_findIdx?_eq_none position.symm v).symm, h.record key v⟩

theorem entries_putAll {r : Rebuilt} (h : r.Valid) (pairs : Entries) :
    (pairs.foldl (fun r p => r.put p.1 p.2) r).entries =
      pairs.foldl (fun es p => es.insert p.1 p.2) r.entries := by
  induction pairs generalizing r with
  | nil => rfl
  | cons p pairs ih =>
    obtain ⟨inserted, valid⟩ := h.put p.1 p.2
    rw [List.foldl_cons, List.foldl_cons, ih valid, inserted]

variable {nested : Value → Value → Outcome Cause Value} {keyType valueType : Ty}

theorem rebuild_eq_done {previous? : Value → Option Value} {r r' : Rebuilt} {pairs : Entries} :
    rebuild nested keyType valueType previous? r pairs = .done r' ↔
      ∃ converted : Entries,
        List.Forall₂ (fun p q => nested p.1 keyType.zero = .done q.1 ∧
          nested p.2 ((previous? q.1).getD valueType.zero) = .done q.2) pairs converted ∧
        converted.foldl (fun r q => r.put q.1 q.2) r = r' := by
  induction pairs generalizing r with
  | nil => simp [rebuild]
  | cons p pairs ih =>
    simp only [rebuild, useFor_eq_done, ih, List.forall₂_cons_left_iff]
    constructor
    · rintro ⟨key, hkey, value, hvalue, converted, rest, rfl⟩
      exact ⟨(key, value) :: converted, ⟨(key, value), converted, ⟨hkey, hvalue⟩, rest, rfl⟩, rfl⟩
    · rintro ⟨_, ⟨⟨key, value⟩, converted, ⟨hkey, hvalue⟩, rest, rfl⟩, rfl⟩
      exact ⟨key, hkey, value, hvalue, converted, rest, rfl⟩

/-- **Filling a map** collects the converted pairs. Each value starts from what the old entries hold
under its converted key. -/
theorem fillMap_eq_done {old pairs entries : Entries} :
    fillMap nested keyType valueType old pairs = .done entries ↔
      ∃ converted : Entries,
        List.Forall₂ (fun p q => nested p.1 keyType.zero = .done q.1 ∧
          nested p.2 ((old.get? q.1).getD valueType.zero) = .done q.2) pairs converted ∧
        Entries.collect converted = entries := by
  have previous : ∀ key, (((KeyIndex.ofEntries old).position? old key).bind fun i =>
      old[i]?.map (·.2)) = old.get? key := fun key => by
    rw [(KeyIndex.finds_ofEntries old).position?_eq, Entries.position_get?]
  have valid : Rebuilt.empty.Valid := KeyIndex.finds_empty
  simp only [fillMap, useFor_eq_done, rebuild_eq_done, previous]
  constructor
  · rintro ⟨r, ⟨converted, each, rfl⟩, ended⟩
    cases ended
    exact ⟨converted, each, (entries_putAll valid converted).symm⟩
  · rintro ⟨converted, each, rfl⟩
    exact ⟨_, ⟨converted, each, rfl⟩, congrArg _ (entries_putAll valid converted)⟩

end Recipe

end Recast
