import Mathlib.Data.Fin.VecNotation
import Mathlib.Data.List.FinRange
import Mathlib.Data.List.Perm.Basic
import Recast.Proofs.Reading
import Recast.Proofs.Replacement

/-!
The order of a map's entries does not decide what the map is converted to. Each entry has a place of
its own: in a struct the field that its name stands for, in a map the key that its own is converted
to. Where these places differ, no entry meets what another one has left, so entries in another order
fill a struct in the same way (`Settings.result?_struct_reordered`) and a map with the same entries
in that order (`Settings.result?_map_reordered`).
-/

namespace Recast

open Outcome Recipe

/-- Both steps fail, or both are done and what they leave is related. -/
inductive Outcome.EndTogether {ε α : Type} (R : α → α → Prop) : Outcome ε α → Outcome ε α → Prop
  | done {x y : α} (related : R x y) : EndTogether R (.done x) (.done y)
  | failed (error error' : ε) (x y : α) : EndTogether R (.failed error x) (.failed error' y)

/-- What is done in one way is done in the other. -/
theorem Outcome.EndTogether.exists_done {ε α : Type} {R : α → α → Prop} {o o' : Outcome ε α}
    {x : α} (together : o.EndTogether R o') (ended : o = .done x) : ∃ y, o' = .done y ∧ R x y := by
  cases together with
  | done related =>
    cases ended
    exact ⟨_, rfl, related⟩
  | failed => cases ended

/-- Steps that end do so together if what each may leave is related to what the other does. -/
theorem Outcome.endTogether_of_done? {ε α : Type} {R : α → α → Prop} {o o' : Outcome ε α}
    (ends : o ≠ exhausted) (ends' : o' ≠ exhausted)
    (forth : ∀ x, o.done? = some x → ∃ y, o'.done? = some y ∧ R x y)
    (back : ∀ y, o'.done? = some y → ∃ x, o.done? = some x) : o.EndTogether R o' := by
  cases o with
  | exhausted => exact absurd rfl ends
  | done x =>
    obtain ⟨y, done, related⟩ := forth x rfl
    rw [done?_eq_some.1 done]
    exact .done related
  | failed error x =>
    cases o' with
    | exhausted => exact absurd rfl ends'
    | done y =>
      -- What is done in the other way cannot have failed in this one.
      obtain ⟨x, done⟩ := back y rfl
      cases done
    | failed error' y => exact .failed error error' x y

/-- Where no two names stand for one field, the order of names does not decide what a field gets. -/
theorem Recipe.valuesFor_congr {names : List String} {named named' : Fields} (apart : named.Apart)
    (order : named.Perm named') (i : Nat) :
    valuesFor names named i = valuesFor names named' i := by
  have reordered : (valuesFor names named i).Perm (valuesFor names named' i) :=
    valuesFor_perm order i
  rcases valuesFor_apart apart i with none | ⟨p, -, one⟩
  · rw [none, List.nil_perm] at reordered
    rw [none, reordered]
  · rw [one, List.singleton_perm] at reordered
    rw [one, reordered]

/-- Lists related to indexed ones are indexed themselves. -/
theorem forall₂_ofFn {α β : Type} {R : α → β → Prop} {n : Nat} {f : Fin n → α} {ys : List β} :
    List.Forall₂ R (List.ofFn f) ys ↔ ∃ g : Fin n → β, (∀ i, R (f i) (g i)) ∧ List.ofFn g = ys := by
  constructor
  · intro h
    obtain rfl : n = ys.length := by simpa using h.length_eq
    refine ⟨ys.get, fun i => ?_, List.ofFn_get ys⟩
    have each := (List.forall₂_iff_get.1 h).2 i (by simp) i.2
    simpa using each
  · rintro ⟨g, each, rfl⟩
    rw [List.forall₂_iff_get]
    refine ⟨by simp, fun i _ _ => ?_⟩
    simpa using each _

namespace Settings

variable {σ : Settings} {key value keyType valueType : Ty} {dst' : Value}

/-! ## Structs -/

theorem exists_start_struct (σ : Settings) (name : String) (fields : Fields) :
    ∃ old, σ.start (.struct name fields) = .struct name old := by
  rcases σ.start_cases (.struct name fields) with kept | reset
  · exact ⟨fields, kept⟩
  · exact ⟨_, reset.trans (Value.zero_type_struct name fields)⟩

/-- What a key is converted to for a name is a text. -/
theorem exists_text {k name : Value} (h : σ.result? k (.string "") = some name) :
    ∃ s, name = .string s := by
  have conforms : name.Conforms .string :=
    σ.convert_conforms (.scalar (.string "")) (σ.result?_eq_some.1 h)
  cases name with
  | scalar s =>
    have kind := Value.conforms_scalar_iff.1 conforms
    cases s <;> cases kind
    exact ⟨_, rfl⟩
  | _ => cases conforms

/-- The keys have names that differ by more than case, if they have names at all. -/
def NameApart (σ : Settings) (k l : Value) : Prop :=
  ∀ a b, σ.result? k (.string "") = some (.string a) → σ.result? l (.string "") = some (.string b) →
    Text.foldEq a b = false

theorem Names.apart_of_pairwise {entries : Entries} {named : Fields}
    (apart : entries.Pairwise fun e f => σ.NameApart e.1 f.1)
    (h : σ.Names (.map key value entries) named) : named.Apart := by
  simp only [Names] at h
  induction h with
  | nil => exact .nil
  | @cons e n entries named head rest ih =>
    obtain ⟨first, others⟩ := List.pairwise_cons.1 apart
    refine .cons (fun m hm => ?_) (ih others)
    obtain ⟨f, hf, l, converted', rfl⟩ := exists_left_of_forall₂ rest m hm
    obtain ⟨k, converted, rfl⟩ := head
    obtain ⟨a, rfl⟩ := exists_text converted
    obtain ⟨b, rfl⟩ := exists_text converted'
    exact first f hf a b converted converted'

/-- Entries in another order give the same names and values, in another order. -/
theorem Names.reordered {entries entries' : Entries} {named : Fields}
    (order : entries'.Perm entries) (h : σ.Names (.map key value entries) named) :
    ∃ named', σ.Names (.map key value entries') named' ∧ named'.Perm named :=
  List.perm_comp_forall₂ order h

/-- **A struct is filled in the same way by entries in another order**, if their names differ. -/
theorem result?_struct_reordered {entries entries' : Entries} (order : entries'.Perm entries)
    (apart : entries.Pairwise fun e f => σ.NameApart e.1 f.1) {name : String} {fields : Fields}
    (done : σ.result? (.map key value entries) (.struct name fields) = some dst') :
    σ.result? (.map key value entries') (.struct name fields) = some dst' := by
  have notNil : Value.struct name fields ≠ .nil := by simp
  obtain ⟨old, started⟩ := σ.exists_start_struct name fields
  have kept : σ.start (.struct name old) = .struct name old := started ▸ σ.start_start _
  rw [← σ.result?_start _ notNil, started] at done ⊢
  rw [result?_struct_eq_some rfl kept] at done ⊢
  rcases done with ⟨absent, -⟩ | ⟨named, slots, given, assigned, rfl⟩
  · cases absent
  · obtain ⟨named', given', reordered⟩ := Names.reordered order given
    refine .inr ⟨named', slots, given', ?_, rfl⟩
    have differ : Fields.Apart named := Names.apart_of_pairwise apart given
    rw [assignAll_eq_done] at assigned ⊢
    obtain ⟨known, names, each⟩ := assigned
    refine ⟨fun p hp => known p (reordered.mem_iff.1 hp), names, fun i f g hf hg => ?_⟩
    -- A field gets one value or none, so that its values have no order to lose.
    rw [← valuesFor_congr differ reordered.symm]
    exact each i f g hf hg

/-! ## Maps -/

theorem exists_start_map (σ : Settings) (key value : Ty) (entries : Entries) :
    ∃ old, σ.start (.map key value entries) = .map key value old := by
  rcases σ.start_cases (.map key value entries) with kept | reset
  · exact ⟨entries, kept⟩
  · exact ⟨[], reset⟩

/-- The keys are converted to keys of the type that differ, if they are converted to any. -/
def KeyApart (σ : Settings) (t : Ty) (k l : Value) : Prop :=
  ∀ a b, σ.result? k t.zero = some a → σ.result? l t.zero = some b → (a == b) = false

/-- The entry is converted to the second one, its value into what the old entries hold under the
new key. -/
def Converts (σ : Settings) (keyType valueType : Ty) (old : Entries) (p q : Value × Value) : Prop :=
  σ.result? p.1 keyType.zero = some q.1 ∧
    σ.result? p.2 ((old.get? q.1).getD valueType.zero) = some q.2

variable {n : Nat} {e : Fin n → Value × Value}

/-- Entries whose keys are apart stay so in another order. -/
theorem apart_comp {R : Value → Value → Prop} (π : Equiv.Perm (Fin n))
    (apart : ∀ i j, i ≠ j → R (e i).1 (e j).1) (i j : Fin n) (differ : i ≠ j) :
    R ((e ∘ π) i).1 ((e ∘ π) j).1 :=
  apart (π i) (π j) (π.injective.ne differ)

theorem pairwise_of_apart {R : Value → Value → Prop} (apart : ∀ i j, i ≠ j → R (e i).1 (e j).1) :
    (List.ofFn e).Pairwise fun p q => R p.1 q.1 :=
  List.pairwise_ofFn.2 fun i j lower => apart i j (Fin.ne_of_lt lower)

variable (apart : ∀ i j, i ≠ j → σ.KeyApart keyType (e i).1 (e j).1)
include apart

/-- Converted entries stay one by one if their keys differ. -/
theorem collect_ofFn {old : Entries} {r : Fin n → Value × Value}
    (each : ∀ i, σ.Converts keyType valueType old (e i) (r i)) :
    Entries.collect (List.ofFn r) = List.ofFn r := by
  refine Entries.collect_of_distinct (List.pairwise_ofFn.2 fun i j lower => ?_)
  exact apart i j (Fin.ne_of_lt lower) _ _ (each i).1 (each j).1

/-- **A map is filled entry by entry**, each in its place, if their keys differ. -/
theorem result?_map_ofFn {old : Entries}
    (kept : σ.start (.map keyType valueType old) = .map keyType valueType old) :
    σ.result? (.map key value (List.ofFn e)) (.map keyType valueType old) = some dst' ↔
      ∃ r : Fin n → Value × Value, (∀ i, σ.Converts keyType valueType old (e i) (r i)) ∧
        .map keyType valueType (List.ofFn r) = dst' := by
  have live : (Value.map key value (List.ofFn e)).elem.isPointer = false := rfl
  rw [result?_map_eq_some live kept]
  simp only [Value.elem, Value.pairs?, reduceCtorEq, false_and, false_or, Option.some.injEq]
  constructor
  · rintro ⟨_, converted, rfl, each, rfl⟩
    obtain ⟨r, places, rfl⟩ := forall₂_ofFn.1 each
    exact ⟨r, places, by rw [collect_ofFn apart places]⟩
  · rintro ⟨r, places, rfl⟩
    refine ⟨_, List.ofFn r, rfl, forall₂_ofFn.2 ⟨r, places, rfl⟩, ?_⟩
    rw [collect_ofFn apart places]

/-- **A map is filled with the same entries in another order** by entries in that order. -/
theorem result?_map_reordered (π : Equiv.Perm (Fin n)) {old : Entries}
    (done : σ.result? (.map key value (List.ofFn e)) (.map keyType valueType old) = some dst') :
    ∃ r : Fin n → Value × Value, dst' = .map keyType valueType (List.ofFn r) ∧
      σ.result? (.map key value (List.ofFn (e ∘ π))) (.map keyType valueType old) =
        some (.map keyType valueType (List.ofFn (r ∘ π))) := by
  have notNil : Value.map keyType valueType old ≠ .nil := by simp
  obtain ⟨held, started⟩ := σ.exists_start_map keyType valueType old
  have kept : σ.start (.map keyType valueType held) = .map keyType valueType held :=
    started ▸ σ.start_start _
  rw [← σ.result?_start _ notNil, started] at done ⊢
  obtain ⟨r, places, rfl⟩ := (result?_map_ofFn apart kept).1 done
  refine ⟨r, rfl, ?_⟩
  exact (result?_map_ofFn (apart_comp π apart) kept).2 ⟨r ∘ π, fun i => places (π i), rfl⟩

end Settings

/-! ## Calls of the converter -/

namespace Converter.Standard

variable {c : Converter} {options : CallOptions} (h : c.Standard options)
include h

/-- Calls that give their results together fail together. -/
theorem endTogether {R : Value → Value → Prop} {src src' dst : Value}
    (forth : ∀ x, (c.settingsOf options).result? src dst = some x →
      ∃ y, (c.settingsOf options).result? src' dst = some y ∧ R x y)
    (back : ∀ y, (c.settingsOf options).result? src' dst = some y →
      ∃ x, (c.settingsOf options).result? src dst = some x) :
    (c.convertWith options src dst).EndTogether R (c.convertWith options src' dst) := by
  have result (src : Value) : (c.convertWith options src dst).done? =
      (c.settingsOf options).result? src dst := by
    rw [h.convertWith_eq, done?_rollback]
    rfl
  apply endTogether_of_done? (h.convertWith_ends src dst) (h.convertWith_ends src' dst)
  · simpa only [result] using forth
  · simpa only [result] using back

/-- **The order of entries does not decide the result.** Into a struct, entries whose names differ
by more than case are converted to the same struct in any order. Into a map, entries whose keys are
converted to different ones are converted to the same entries, in the order that they had. Where the
conversion fails in one order, it does so in every other. -/
theorem convert_reordered (key value : Ty) {n : Nat} (e : Fin n → Value × Value)
    (π : Equiv.Perm (Fin n)) :
    let given := Value.map key value (List.ofFn e)
    let reordered := Value.map key value (List.ofFn (e ∘ π))
    (∀ name fields,
      (∀ i j, i ≠ j → ∀ a b, c.convertWith options (e i).1 (.string "") = .done (.string a) →
        c.convertWith options (e j).1 (.string "") = .done (.string b) →
          Text.foldEq a b = false) →
      (c.convertWith options given (.struct name fields)).EndTogether (· = ·)
        (c.convertWith options reordered (.struct name fields))) ∧
    ∀ keyType valueType old,
      (∀ i j, i ≠ j → ∀ a b, c.convertWith options (e i).1 keyType.zero = .done a →
        c.convertWith options (e j).1 keyType.zero = .done b → (a == b) = false) →
      (c.convertWith options given (.map keyType valueType old)).EndTogether
        (fun x y => ∃ r : Fin n → Value × Value, x = .map keyType valueType (List.ofFn r) ∧
          y = .map keyType valueType (List.ofFn (r ∘ π)))
        (c.convertWith options reordered (.map keyType valueType old)) := by
  intro given reordered
  simp only [h.result?_eq_some]
  constructor
  · intro name fields apart
    have order : (List.ofFn (e ∘ π)).Perm (List.ofFn e) := π.ofFn_comp_perm e
    have differ : (List.ofFn e).Pairwise fun p q => (c.settingsOf options).NameApart p.1 q.1 :=
      Settings.pairwise_of_apart apart
    have differ' : (List.ofFn (e ∘ π)).Pairwise
        fun p q => (c.settingsOf options).NameApart p.1 q.1 :=
      Settings.pairwise_of_apart (Settings.apart_comp π apart)
    apply h.endTogether
    case forth =>
      intro x done
      exact ⟨x, Settings.result?_struct_reordered order differ done, rfl⟩
    case back =>
      intro y done
      exact ⟨y, Settings.result?_struct_reordered order.symm differ' done⟩
  · intro keyType valueType old apart
    apply h.endTogether
    case forth =>
      intro x done
      obtain ⟨r, rfl, done'⟩ := Settings.result?_map_reordered apart π done
      exact ⟨_, done', r, rfl, rfl⟩
    case back =>
      intro y done
      obtain ⟨r, rfl, done'⟩ :=
        Settings.result?_map_reordered (Settings.apart_comp π apart) π.symm done
      have restored : (e ∘ π) ∘ π.symm = e := by simp [Function.comp_assoc]
      rw [restored] at done'
      exact ⟨_, done'⟩

omit h in
/-- Names that do not stand in the order of the fields, one of them with letters of another case. -/
theorem convert_reordered_ports :
    let c : Converter := {}
    let e : Fin 2 → Value × Value := ![(.string "0x50", .string "443"), (.int .int 7, .string "22")]
    let swapped : Equiv.Perm (Fin 2) := Equiv.swap 0 1
    let given := Value.map .any .any (List.ofFn e)
    let reordered := Value.map .any .any (List.ofFn (e ∘ swapped))
    let row (seven eighty : Int) : Value :=
      .struct "Row" [("7", .int .int seven), ("0X50", .int .int eighty)]
    let number : Ty := .scalar (.int .int)
    let table : Entries → Value := .map number number
    let seven : Value × Value := (.int .int 7, .int .int 22)
    let eighty : Value × Value := (.int .int 80, .int .int 443)
    (∀ i j, i ≠ j → ∀ a b, c.convertWith {} (e i).1 (.string "") = .done (.string a) →
      c.convertWith {} (e j).1 (.string "") = .done (.string b) → Text.foldEq a b = false) ∧
    (∀ i j, i ≠ j → ∀ a b, c.convertWith {} (e i).1 number.zero = .done a →
      c.convertWith {} (e j).1 number.zero = .done b → (a == b) = false) ∧
    c.convertWith {} given (row 0 0) = .done (row 22 443) ∧
    c.convertWith {} reordered (row 0 0) = .done (row 22 443) ∧
    c.convertWith {} given (table []) = .done (table [eighty, seven]) ∧
    c.convertWith {} reordered (table []) = .done (table [seven, eighty]) := by
  intro c e swapped given reordered row number table seven eighty
  have standard : c.Standard {} := ⟨rfl, rfl⟩
  have names : ∀ i, c.convertWith {} (e i).1 (.string "") = .done (.string (!["0x50", "7"] i)) :=
    Fin.forall_fin_two.2 ⟨rfl, rfl⟩
  have keys : ∀ i, c.convertWith {} (e i).1 number.zero = .done (.int .int (![80, 7] i)) :=
    Fin.forall_fin_two.2 ⟨rfl, rfl⟩
  have namesApart : ∀ i j, i ≠ j → ∀ a b,
      c.convertWith {} (e i).1 (.string "") = .done (.string a) →
      c.convertWith {} (e j).1 (.string "") = .done (.string b) → Text.foldEq a b = false := by
    intro i j differ a b ha hb
    rw [names] at ha hb
    cases ha
    cases hb
    revert i j
    decide
  have keysApart : ∀ i j, i ≠ j → ∀ a b, c.convertWith {} (e i).1 number.zero = .done a →
      c.convertWith {} (e j).1 number.zero = .done b → (a == b) = false := by
    intro i j differ a b ha hb
    rw [keys] at ha hb
    cases ha
    cases hb
    simp only [BEq.beq, Value.same, Scalar.same]
    revert i j
    decide
  have filled : c.convertWith {} given (row 0 0) = .done (row 22 443) := rfl
  have listed : c.convertWith {} given (table []) = .done (table [eighty, seven]) := by
    have apart : ∀ i j, i ≠ j → (c.settingsOf {}).KeyApart number (e i).1 (e j).1 := by
      simp only [standard.result?_eq_some] at keysApart
      exact keysApart
    rw [standard.result?_eq_some]
    refine (Settings.result?_map_ofFn apart rfl).2 ⟨![eighty, seven], ?_, rfl⟩
    exact Fin.forall_fin_two.2 ⟨⟨rfl, rfl⟩, ⟨rfl, rfl⟩⟩
  obtain ⟨structs, maps⟩ := standard.convert_reordered .any .any e swapped
  obtain ⟨_, filled', rfl⟩ := (structs "Row" _ namesApart).exists_done filled
  obtain ⟨_, listed', r, same, rfl⟩ := (maps number number [] keysApart).exists_done listed
  obtain ⟨first, second⟩ : eighty = r 0 ∧ seven = r 1 := by simpa [table] using same
  have exchanged : List.ofFn (r ∘ swapped) = [r 1, r 0] := rfl
  rw [exchanged, ← first, ← second] at listed'
  exact ⟨namesApart, keysApart, filled, filled', listed, listed'⟩

end Converter.Standard

end Recast
