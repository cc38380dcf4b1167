import Mathlib.Data.List.Permutation
import Recast.Conversion.Converter
import Recast.Proofs.Entries

/-!
The index of text keys is only a shortcut. `Recipe.fillPlainly` fills a map by looking through the
old entries and the new ones for each key, and `fillMap_eq_fillPlainly` says that the outcome is the
same, for any conversion of keys and values. What is left of the converted pairs is one entry for
each key, at the place of its first pair and with the value of its last (`Entries.collect_eq`).
-/

namespace Recast

namespace Entries

/-! ## First places and last values -/

theorem eraseDupsBy_concat {α : Type} (r : α → α → Bool) (as : List α) (a : α) :
    (as ++ [a]).eraseDupsBy r =
      if (as.eraseDupsBy r).any (r a) then as.eraseDupsBy r else as.eraseDupsBy r ++ [a] := by
  have grown : ∀ seen : List α, List.eraseDupsBy.loop r (as ++ [a]) seen =
      List.eraseDupsBy.loop r [a] (List.eraseDupsBy.loop r as seen).reverse := by
    induction as with
    | nil => simp [List.eraseDupsBy.loop]
    | cons b as ih =>
      intro seen
      simp only [List.cons_append, List.eraseDupsBy.loop]
      cases seen.any (r b) <;> exact ih _
  simp only [List.eraseDupsBy, grown, List.eraseDupsBy.loop, List.any_reverse]
  split
  · next seen => simp [seen]
  · next new => simp [new]

/-- The pairs that come first for their key. -/
def firsts (pairs : Entries) : Entries := pairs.eraseDupsBy fun p q => p.1 == q.1

/-- The value of the last pair for the key of `p`. A key that differs from itself has no pair but
its own. -/
def latest (pairs : Entries) (p : Value × Value) : Value :=
  (Entries.get? pairs.reverse p.1).getD p.2

theorem latest_concat (pairs : Entries) (p q : Value × Value) :
    latest (pairs ++ [p]) q = if p.1 == q.1 then p.2 else latest pairs q := by
  simp only [latest, List.reverse_append, List.reverse_singleton, List.singleton_append, get?_cons]
  split <;> rfl

theorem latest_concat_self (pairs : Entries) (p : Value × Value) :
    latest (pairs ++ [p]) p = p.2 := by
  rw [latest_concat]
  split
  · rfl
  · next differs =>
    rw [latest, get?_eq_none_of_ne_self _ (by simpa using differs)]
    rfl

/-- Where keys are told apart, an insertion under a key that is there changes its entry alone. -/
theorem insert_of_any {entries : Entries} (h : entries.Distinct) {key : Value}
    (there : entries.any fun e => key == e.1) (v : Value) :
    entries.insert key v = entries.map fun e => (e.1, if key == e.1 then v else e.2) := by
  induction h with
  | nil => simp at there
  | @cons e entries apart rest ih =>
    simp only [Entries.insert, List.map_cons, Value.beq_comm e.1 key]
    by_cases here : key == e.1
    · have others : ∀ d ∈ entries, (key == d.1) = false := by
        intro d hd
        rw [Value.beq_comm, Value.beq_congr here, Value.beq_comm]
        exact apart d hd
      have kept : (entries.map fun d => (d.1, if key == d.1 then v else d.2)) = entries.map id :=
        List.map_congr_left fun d hd => by simp [others d hd]
      simp [here, kept]
    · have later : entries.any fun d => key == d.1 := by simpa [here] using there
      simp [here, ih later]

theorem insert_of_not_any {entries : Entries} {key : Value}
    (absent : ¬entries.any fun e => key == e.1) (v : Value) :
    entries.insert key v = entries ++ [(key, v)] := by
  apply insert_of_findIdx?_eq_none
  rw [List.findIdx?_eq_none_iff]
  intro e he
  rw [Value.beq_comm]
  simp only [List.any_eq_true, not_exists, not_and, Bool.not_eq_true] at absent
  exact absent e he

/-- **One entry for each key** is what is left of pairs that are put one after the other: at the
place of the first pair for the key, with the value of the last. -/
theorem collect_eq (pairs : Entries) :
    collect pairs = (firsts pairs).map fun p => (p.1, latest pairs p) := by
  induction pairs using List.reverseRecOn with
  | nil => rfl
  | append_singleton pairs p ih =>
    have put : collect (pairs ++ [p]) = (collect pairs).insert p.1 p.2 := by
      simp only [collect, List.foldl_append, List.foldl_cons, List.foldl_nil]
    have known : ((collect pairs).any fun e => p.1 == e.1) =
        (firsts pairs).any fun q => p.1 == q.1 := by
      rw [ih, List.any_map]
      rfl
    rw [put, firsts, eraseDupsBy_concat, ← firsts, ← known]
    split
    · next there =>
      rw [insert_of_any (collect_distinct pairs) there, ih, List.map_map]
      simp only [Function.comp_def, latest_concat]
    · next absent =>
      rw [insert_of_not_any absent, List.map_append, List.map_singleton, latest_concat_self, ih]
      congr 1
      refine List.map_congr_left fun q hq => ?_
      have differs : ¬(p.1 == q.1) := fun same =>
        absent (known ▸ List.any_eq_true.2 ⟨q, hq, same⟩)
      rw [latest_concat, if_neg differs]

end Entries

/-! ## Filling a map without an index -/

namespace Recipe

open Outcome

variable {nested : Value → Value → Outcome Cause Value} {keyType valueType : Ty}

/-- Converts and puts each pair, into the entries of a new map. A value starts from what the old map
holds under the converted key, and each key is looked for from the front. -/
def fillPlainly (nested : Value → Value → Outcome Cause Value) (keyType valueType : Ty)
    (old : Entries) : (rebuilt pairs : Entries) → Outcome Cause Entries
  | rebuilt, [] => .done rebuilt
  | rebuilt, (k, v) :: pairs =>
    (nested k keyType.zero).useFor old fun key =>
      (nested v ((old.get? key).getD valueType.zero)).useFor old fun value =>
        fillPlainly nested keyType valueType old (rebuilt.insert key value) pairs

theorem rebuild_eq_fillPlainly {r : Rebuilt} (h : r.Valid) (old pairs : Entries) :
    ((rebuild nested keyType valueType old.get? r pairs).useFor old fun r => .done r.entries) =
      fillPlainly nested keyType valueType old r.entries pairs := by
  induction pairs generalizing r with
  | nil => rfl
  | cons p pairs ih =>
    simp only [rebuild, fillPlainly]
    cases nested p.1 keyType.zero with
    | failed | exhausted => rfl
    | done key =>
      simp only [useFor]
      cases nested p.2 ((old.get? key).getD valueType.zero) with
      | failed | exhausted => rfl
      | done value =>
        obtain ⟨inserted, valid⟩ := h.put key value
        simp only [useFor] at ih ⊢
        rw [ih valid, inserted]

/-- **The index makes no difference**, whatever keys the old map and the pairs have and whatever
becomes of them. When the map is filled, no two of its keys are equal, and it has one entry for each
key that a pair was converted to: at the place of the first such pair, with the value of the
last. -/
theorem fillMap_eq_fillPlainly (nested : Value → Value → Outcome Cause Value)
    (keyType valueType : Ty) (old pairs : Entries) :
    fillMap nested keyType valueType old pairs =
        fillPlainly nested keyType valueType old [] pairs ∧
      ∀ entries, fillMap nested keyType valueType old pairs = .done entries →
        entries.Distinct ∧ ∃ converted : Entries,
          List.Forall₂ (fun p q => nested p.1 keyType.zero = .done q.1 ∧
            nested p.2 ((old.get? q.1).getD valueType.zero) = .done q.2) pairs converted ∧
          entries = converted.firsts.map fun p => (p.1, converted.latest p) := by
  constructor
  · have valid : Rebuilt.empty.Valid := KeyIndex.finds_empty
    have previous : (fun key => ((KeyIndex.ofEntries old).position? old key).bind fun i =>
        old[i]?.map (·.2)) = old.get? := by
      funext key
      rw [(KeyIndex.finds_ofEntries old).position?_eq, Entries.position_get?]
    rw [fillMap, previous]
    exact rebuild_eq_fillPlainly valid old pairs
  · intro entries filled
    obtain ⟨converted, each, rfl⟩ := fillMap_eq_done.1 filled
    exact ⟨Entries.collect_distinct converted, converted, each, Entries.collect_eq converted⟩

/-- Untyped keys: a text that occurs twice, an integer, and NaN, which is a new key each time. Both
values for the text are converted into the first old one, and the second of them stays. -/
theorem fillMap_eq_fillPlainly_untyped :
    let nested := Scope.nested ⟨{}, ({} : Converter).convert⟩
    let point (x y : Int) : Value := .struct "Point" [("x", .int .int x), ("y", .int .int y)]
    let part (name : String) (n : Int) : Value := .map .string .any [(.string name, .int .int n)]
    let nan : Value := .scalar (.float .float64 FloatKind.float64.nan)
    let old : Entries := [(.string "a", point 1 2), (nan, point 3 4), (.string "a", .nil)]
    let pairs : Entries := [(.string "a", part "x" 5), (nan, .string "first"),
      (.int .int 1, .nil), (nan, .string "second"), (.string "a", part "y" 6)]
    let filled : Entries := [(.string "a", point 1 6), (nan, .string "first"),
      (.int .int 1, .nil), (nan, .string "second")]
    fillMap nested .any .any old pairs = .done filled ∧
      fillPlainly nested .any .any old [] pairs = .done filled ∧ filled.Distinct := by
  intro nested point part nan old pairs filled
  have done : fillPlainly nested .any .any old [] pairs = .done filled := by
    simp only [nested, old, pairs, filled, point, part, nan]
    cbv
  obtain ⟨plain, shown⟩ := fillMap_eq_fillPlainly nested .any .any old pairs
  have indexed : fillMap nested .any .any old pairs = .done filled := plain.trans done
  exact ⟨indexed, done, (shown filled indexed).1⟩

end Recipe

end Recast
