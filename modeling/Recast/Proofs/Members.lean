import Mathlib.Data.List.Perm.Basic
import Recast.Document.Basic
import Recast.Proofs.Literals
import Recast.Proofs.Residues

/-!
The documents that values become. Members are sorted as they are put, so an object holds its members
in another order, and all of them if no two have one key (`Members.collect_perm`). What a document
leads to is never a pointer, and a scalar comes back from its document (`Scalar.coerce_document`).
-/

namespace Recast

/-! ## Members of an object -/

namespace Members

theorem insert_perm {key : String} {document : Document} {members : Members}
    (h : key ∉ members.map (·.1)) :
    (members.insert key document).Perm ((key, document) :: members) := by
  induction members with
  | nil => exact .refl _
  | cons m members ih =>
    simp only [List.map_cons, List.mem_cons, not_or] at h
    obtain ⟨head, tail⟩ := h
    simp only [Members.insert, if_neg head]
    split
    · exact .refl _
    · exact ((ih tail).cons m).trans (.swap (key, document) m members)

/-- The members of an object that pairs are put into one after the other. -/
def collect (pairs : Members) : Members := pairs.foldl (fun ms m => ms.insert m.1 m.2) []

theorem collect_perm {pairs : Members} (h : (pairs.map (·.1)).Nodup) :
    (collect pairs).Perm pairs := by
  suffices grown : ∀ (rest before : Members), ((before ++ rest).map (·.1)).Nodup →
      (rest.foldl (fun ms m => ms.insert m.1 m.2) before).Perm (before ++ rest) from
    grown pairs [] h
  intro rest
  induction rest with
  | nil => simp
  | cons m rest ih =>
    intro before h
    obtain ⟨_, _, apart⟩ := List.nodup_append.1 (List.map_append ▸ h)
    have absent : m.1 ∉ before.map (·.1) := fun there => apart _ there _ List.mem_cons_self rfl
    have put : (before.insert m.1 m.2).Perm (m :: before) := insert_perm absent
    have moved : (before.insert m.1 m.2 ++ rest).Perm (before ++ m :: rest) :=
      (put.append_right rest).trans List.perm_middle.symm
    exact (ih _ ((moved.map _).nodup_iff.2 h)).trans moved

end Members

namespace Value

theorem entryMembers_eq (before : Members) (entries : Entries) :
    entryMembers before entries =
      (entries.map fun e => (e.1.text, e.2.toDocument)).foldl (fun ms m => ms.insert m.1 m.2)
        before := by
  induction entries generalizing before with
  | nil => rfl
  | cons e entries ih => exact ih _

theorem fieldMembers_eq (before : Members) (fields : Fields) :
    fieldMembers before fields =
      (fields.map fun f => (f.1, f.2.toDocument)).foldl (fun ms m => ms.insert m.1 m.2)
        before := by
  induction fields generalizing before with
  | nil => rfl
  | cons f fields ih => exact ih _

theorem toDocument_map (key value : Ty) (entries : Entries) :
    (Value.map key value entries).toDocument =
      .object (Members.collect (entries.map fun e => (e.1.text, e.2.toDocument))) := by
  rw [toDocument, entryMembers_eq, Members.collect]

theorem toDocument_struct (name : String) (fields : Fields) :
    (Value.struct name fields).toDocument =
      .object (Members.collect (fields.map fun f => (f.1, f.2.toDocument))) := by
  rw [toDocument, fieldMembers_eq, Members.collect]

theorem toDocument_seq (item : Ty) (length : Option Nat) (items : List Value) :
    (Value.seq item length items).toDocument = .array (items.map toDocument) := by
  have mapped : itemDocuments items = items.map toDocument := by
    induction items with
    | nil => rfl
    | cons v items ih => rw [itemDocuments, List.map_cons, ih]
  rw [toDocument, mapped]

theorem ofDocument_array (documents : List Document) :
    ofDocument (.array documents) = .seq .any none (documents.map ofDocument) := by
  have mapped : ofDocuments documents = documents.map ofDocument := by
    induction documents with
    | nil => rfl
    | cons d documents ih => rw [ofDocuments, List.map_cons, ih]
  rw [ofDocument, mapped]

theorem ofDocument_object (members : Members) :
    ofDocument (.object members) =
      .map .string .any (members.map fun m => (.string m.1, ofDocument m.2)) := by
  have mapped : ofMembers members = members.map fun m => (.string m.1, ofDocument m.2) := by
    induction members with
    | nil => rfl
    | cons m members ih => rw [ofMembers, List.map_cons, ih]
  rw [ofDocument, mapped]

end Value

/-! ## Documents of scalars -/

/-- The number is one of the documents. -/
def Scalar.Finite : Scalar → Prop
  | .float k word => k = .float64 ∧ ∃ negative significand exponent,
      k.read word = .finite negative significand exponent
  | _ => True

/-- **A scalar comes back from its document**, if that holds it. -/
theorem Scalar.coerce_document {s : Scalar} (h : s.Finite) :
    ∃ s' : Scalar, Value.ofDocument (Value.scalarDocument s) = .scalar s' ∧
      s'.coerce s.kind = .ok s := by
  cases s with
  | bool b => exact ⟨.bool b, rfl, rfl⟩
  | string s => exact ⟨.string s, rfl, rfl⟩
  | int k word =>
    have back (l : IntKind) (wide : l.width = 64) :
        (Scalar.int l (l.wrap (k.value word))).coerce (.int k) = .ok (.int k word) := by
      have narrower : k.width ≤ l.width := wide ▸ k.width_le
      simp only [coerce, toInt, IntKind.wrap_value_wrap narrower, IntKind.wrap_value]
      rfl
    simp only [Value.scalarDocument, Value.ofDocument]
    split
    · exact ⟨_, rfl, back .int64 rfl⟩
    · exact ⟨_, rfl, back .uint64 rfl⟩
  | float k word =>
    obtain ⟨rfl, _, _, _, finite⟩ := h
    refine ⟨.float .float64 word, ?_, Scalar.coerce_self _⟩
    simp only [Value.scalarDocument, finite, Value.ofDocument, FloatKind.convert, dif_pos]

end Recast
