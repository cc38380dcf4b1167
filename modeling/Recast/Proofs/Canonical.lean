import Recast.Proofs.Members
import Recast.Proofs.Parts
import Recast.Proofs.Ranges
import Recast.Proofs.Widening

/-!
Canonical documents: those with numbers that a document holds and members sorted by key, at every
depth. They are the documents that values become (`Value.toDocument_canonical`), and just the ones
that come back from the values they lead to. Texts are read to such documents as well, so what is
read comes back (`Document.map_toDocument_parse?`).
-/

namespace Recast

/-- Keys ascend, so that no two members have the same. -/
def Members.Sorted (members : Members) : Prop := members.Pairwise (·.1 < ·.1)

inductive Document.Canonical : Document → Prop
  | null : Canonical .null
  | bool (b : Bool) : Canonical (.bool b)
  | int {n : Int} (held : Document.holdsInt n = true) : Canonical (.int n)
  | float {word : FloatKind.float64.Word}
      (finite : (FloatKind.float64.read word).isFinite = true) : Canonical (.float word)
  | string (s : String) : Canonical (.string s)
  | array {items : List Document} (each : ∀ d ∈ items, Canonical d) : Canonical (.array items)
  | object {members : Members} (sorted : members.Sorted) (each : ∀ m ∈ members, Canonical m.2) :
      Canonical (.object members)

/-! ## Members -/

namespace Members

variable {key : String} {document : Document} {members : Members}

theorem insert_of_lt (h : ∀ m ∈ members, m.1 < key) :
    members.insert key document = members ++ [(key, document)] := by
  induction members with
  | nil => rfl
  | cons m members ih =>
    obtain ⟨before, rest⟩ := List.forall_mem_cons.1 h
    have differs : key ≠ m.1 := fun same => String.lt_irrefl key (same ▸ before)
    rw [Members.insert, if_neg (String.lt_asymm before), if_neg differs, ih rest, List.cons_append]

/-- Sorted members are put as they stand. -/
theorem collect_of_sorted (h : members.Sorted) : collect members = members := by
  suffices grown : ∀ (rest before : Members), Sorted (before ++ rest) →
      rest.foldl (fun ms m => ms.insert m.1 m.2) before = before ++ rest from
    grown members [] h
  intro rest
  induction rest with
  | nil => simp
  | cons m rest ih =>
    intro before h
    have below : ∀ b ∈ before, b.1 < m.1 := fun b hb =>
      (List.pairwise_append.1 h).2.2 b hb m List.mem_cons_self
    rw [List.foldl_cons, insert_of_lt below, ih _ (by simpa using h), List.append_assoc]
    rfl

theorem mem_insert {m : String × Document} (h : m ∈ members.insert key document) :
    m = (key, document) ∨ m ∈ members := by
  induction members with
  | nil => exact .inl (List.mem_singleton.1 h)
  | cons first members ih =>
    rw [Members.insert] at h
    split at h
    · exact List.mem_cons.1 h
    · split at h
      · exact (List.mem_cons.1 h).imp_right (List.mem_cons_of_mem _)
      · rcases List.mem_cons.1 h with rfl | inside
        · exact .inr List.mem_cons_self
        · exact (ih inside).imp_right (List.mem_cons_of_mem _)

theorem Sorted.insert (h : members.Sorted) : Sorted (members.insert key document) := by
  induction members with
  | nil => exact List.pairwise_singleton ..
  | cons m members ih =>
    obtain ⟨above, rest⟩ := List.pairwise_cons.1 h
    rw [Members.insert]
    split
    · next first =>
      refine List.pairwise_cons.2 ⟨List.forall_mem_cons.2 ⟨first, fun b hb => ?_⟩, h⟩
      exact String.lt_trans first (above b hb)
    · next last =>
      split
      · next same => exact List.pairwise_cons.2 ⟨same ▸ above, rest⟩
      · next differs =>
        refine List.pairwise_cons.2 ⟨fun b hb => ?_, ih rest⟩
        have greater : m.1 < key := Std.lt_of_le_of_ne (String.not_lt.1 last) (Ne.symm differs)
        rcases mem_insert hb with rfl | inside
        · exact greater
        · exact above b inside

/-- What members of an object have to be. -/
structure Canonical (members : Members) : Prop where
  sorted : members.Sorted
  each : ∀ m ∈ members, m.2.Canonical

theorem Canonical.insert (h : members.Canonical) (h' : document.Canonical) :
    (members.insert key document).Canonical where
  sorted := h.sorted.insert
  each m hm := (mem_insert hm).elim (fun same => same ▸ h') (h.each m)

end Members

/-- An object is canonical whatever the order in which its members are put. -/
theorem Document.canonical_collect {pairs : Members} (h : ∀ m ∈ pairs, m.2.Canonical) :
    (Document.object (Members.collect pairs)).Canonical := by
  suffices grown : ∀ (rest before : Members), (∀ m ∈ rest, m.2.Canonical) → before.Canonical →
      (rest.foldl (fun ms m => ms.insert m.1 m.2) before).Canonical by
    have canonical := grown pairs [] h ⟨.nil, nofun⟩
    exact .object canonical.sorted canonical.each
  intro rest
  induction rest with
  | nil => exact fun before _ canonical => canonical
  | cons m rest ih =>
    intro before h canonical
    obtain ⟨first, rest⟩ := List.forall_mem_cons.1 h
    exact ih _ rest (canonical.insert first)

/-! ## Values -/

theorem Document.holdsInt_value (k : IntKind) (word : k.Word) :
    Document.holdsInt (k.value word) = true := by
  obtain ⟨least, greatest⟩ := k.holds_value word
  have widest : IntKind.int64.least ≤ k.least ∧ k.greatest ≤ IntKind.uint64.greatest := by
    cases k <;> decide
  simp only [holdsInt, Bool.and_eq_true, decide_eq_true_eq]
  omega

theorem Value.scalarDocument_canonical (s : Scalar) : (Value.scalarDocument s).Canonical := by
  cases s with
  | bool b => exact .bool b
  | int k word => exact .int (Document.holdsInt_value k word)
  | string s => exact .string s
  | float k word =>
    rw [Value.scalarDocument]
    split
    · next read => exact .float (FloatKind.isFinite_convert (by rw [read]; rfl))
    · exact .null

/-- **Every value becomes a canonical document.** -/
theorem Value.toDocument_canonical (v : Value) : v.toDocument.Canonical := by
  induction v using Value.partsInduction with
  | step v ih =>
    cases v with
    | nil => exact .null
    | nilPointer => exact .null
    | scalar s => exact Value.scalarDocument_canonical s
    | pointer pointee target => exact ih target (List.mem_singleton_self target)
    | seq item length items =>
      rw [toDocument_seq]
      exact .array (List.forall_mem_map.2 ih)
    | struct name fields =>
      rw [toDocument_struct]
      exact Document.canonical_collect (List.forall_mem_map.2 fun f hf =>
        ih f.2 (List.mem_map_of_mem hf))
    | map key value entries =>
      rw [toDocument_map]
      exact Document.canonical_collect (List.forall_mem_map.2 fun e he =>
        ih e.2 (Value.mem_parts_map.2 ⟨e, he, .inr rfl⟩))

/-- **A canonical document comes back** from the value it leads to. -/
theorem Document.Canonical.toDocument_ofDocument {d : Document} (h : d.Canonical) :
    (Value.ofDocument d).toDocument = d := by
  induction h with
  | null => rfl
  | bool b => rfl
  | string s => rfl
  | @int n held =>
    simp only [Document.holdsInt, Bool.and_eq_true, decide_eq_true_eq] at held
    rw [Value.ofDocument]
    split
    · next small =>
      have inside : IntKind.int64.Holds n := ⟨held.1, small⟩
      rw [Value.int, Value.toDocument, Value.scalarDocument, IntKind.value_wrap inside]
    · next large =>
      have inside : IntKind.uint64.Holds n := by
        refine ⟨?_, held.2⟩
        have positive : IntKind.uint64.least ≤ IntKind.int64.greatest := by decide
        omega
      rw [Value.int, Value.toDocument, Value.scalarDocument, IntKind.value_wrap inside]
  | @float word finite =>
    rw [Value.ofDocument, Value.toDocument, Value.scalarDocument]
    split
    · rfl
    · next other =>
      cases read : FloatKind.float64.read word with
      | finite negative significand exponent => exact absurd read (other _ _ _)
      | _ => rw [read] at finite; cases finite
  | @array items each ih =>
    have same : items.map (Value.toDocument ∘ Value.ofDocument) = items :=
      (List.map_congr_left (g := id) ih).trans (List.map_id items)
    rw [Value.ofDocument_array, Value.toDocument_seq, List.map_map, same]
  | @object members sorted each ih =>
    have same : members.map (fun m => (m.1, (Value.ofDocument m.2).toDocument)) = members :=
      (List.map_congr_left (g := id) fun m hm => congrArg (m.1, ·) (ih m hm)).trans
        (List.map_id members)
    rw [Value.ofDocument_object, Value.toDocument_map, List.map_map]
    exact congrArg Document.object ((congrArg Members.collect same).trans
      (Members.collect_of_sorted sorted))

/-- **Documents round-trip.** Just the canonical documents come back from the values they lead to,
with their numbers as they were. Such are the documents that values become. -/
theorem Document.roundtrip :
    (∀ d : Document, (Value.ofDocument d).toDocument = d ↔ d.Canonical) ∧
      ∀ v : Value, (Value.ofDocument v.toDocument).toDocument = v.toDocument := by
  refine ⟨fun d => ?_, fun v => v.toDocument_canonical.toDocument_ofDocument⟩
  constructor
  · intro same
    exact same ▸ Value.toDocument_canonical _
  · exact Canonical.toDocument_ofDocument

/-! ## Reading

What `Document.parse?` reads has the same form. Nothing above rests on that reader. -/

theorem NumberText.finite_canonical {word : FloatKind.float64.Word} {d : Document}
    (h : NumberText.toDocument?.finite word = some d) : d.Canonical := by
  unfold NumberText.toDocument?.finite at h
  split at h
  · next read =>
    cases h
    exact .float (by rw [read]; rfl)
  · cases h

theorem NumberText.canonical {n : NumberText} {d : Document} (h : n.toDocument? = some d) :
    d.Canonical := by
  obtain ⟨negative, whole, fraction, exponent⟩ := n
  cases fraction with
  | some places => exact NumberText.finite_canonical h
  | none =>
    cases exponent with
    | some exponent => exact NumberText.finite_canonical h
    | none =>
      obtain ⟨held, same⟩ | ⟨-, rounded⟩ := ite_eq_iff.1 h
      · cases same
        exact .int (Bool.and_eq_true_iff.1 held).1
      · exact NumberText.finite_canonical rounded

namespace RawDocument

mutual

/-- **Texts are decoded to canonical documents.** -/
theorem canonical : ∀ {raw : RawDocument} {d : Document}, raw.toDocument? = some d → d.Canonical
  | .null, _, h => by
    cases h
    exact .null
  | .bool b, _, h => by
    cases h
    exact .bool b
  | .number n, _, h => NumberText.canonical h
  | .string units, _, h => by
    obtain ⟨s, -, rfl⟩ := Option.map_eq_some_iff.1 h
    exact .string s
  | .array items, _, h => by
    obtain ⟨documents, read, rfl⟩ := Option.map_eq_some_iff.1 h
    exact .array (canonical_items read)
  | .object members, _, h => by
    obtain ⟨put, read, rfl⟩ := Option.map_eq_some_iff.1 h
    have canonical := canonical_members ⟨.nil, nofun⟩ read
    exact .object canonical.sorted canonical.each

theorem canonical_items : ∀ {items : List RawDocument} {documents : List Document},
    toDocuments? items = some documents → ∀ d ∈ documents, d.Canonical
  | [], _, h => by
    cases h
    exact nofun
  | item :: items, _, h => by
    simp only [toDocuments?, Option.bind_eq_bind, Option.bind_eq_some_iff, Option.some.injEq] at h
    obtain ⟨d, read, documents, reads, rfl⟩ := h
    exact List.forall_mem_cons.2 ⟨canonical read, canonical_items reads⟩

theorem canonical_members : ∀ {members : List (List StringUnit × RawDocument)}
    {before put : Members}, before.Canonical → toMembers? before members = some put → put.Canonical
  | [], _, _, canonical, h => by
    cases h
    exact canonical
  | (key, v) :: members, before, _, canonical, h => by
    simp only [toMembers?, Option.bind_eq_bind, Option.bind_eq_some_iff] at h
    obtain ⟨key, -, d, read, reads⟩ := h
    exact canonical_members (canonical.insert (RawDocument.canonical read)) reads

end

end RawDocument

theorem Document.canonical_of_parse? {text : String} {d : Document}
    (h : Document.parse? text = some d) : d.Canonical := by
  obtain ⟨raw, -, decoded⟩ := Option.bind_eq_some_iff.1 h
  split at decoded
  · exact RawDocument.canonical decoded
  · cases decoded

/-- What a text is read to comes back from the value it leads to. -/
theorem Document.map_toDocument_parse? (text : String) :
    (Document.parse? text).map (fun d => (Value.ofDocument d).toDocument) =
      Document.parse? text := by
  cases read : Document.parse? text with
  | none => rfl
  | some d => exact congrArg some (Document.canonical_of_parse? read).toDocument_ofDocument

end Recast
