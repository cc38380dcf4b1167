import Mathlib.Data.List.Find
import Recast.Proofs.ByteOrder
import Recast.Proofs.Extraction
import Recast.Proofs.Words

/-!
Positions in maps and structs. The named values of a map are those of the entries whose keys are
texts (`Path.namedEntries_eq_iff`), and those of a struct are its fields. A position counts them
in the byte order of their names, and a name finds the first of those that have it, so both ways
lead to the same values.
-/

namespace Recast

/-! ## Literals as paths -/

namespace IntegerLiteral

theorem DigitOf.ne_dot {radix : Nat} (small : radix ≤ 16) {c : Char} {d : Nat}
    (h : DigitOf radix c d) : c ≠ '.' := h.ne_of_digit? small (by decide)

theorem Run.undotted {radix : Nat} (small : radix ≤ 16) {cs : List Char} {ds : List Nat}
    (h : Run radix cs ds) : '.' ∉ cs := by
  induction h with
  | last digit => simpa using (digit.ne_dot small).symm
  | next digit _ ih => simpa using ⟨(digit.ne_dot small).symm, ih⟩
  | separated digit _ ih => simpa using ⟨(digit.ne_dot small).symm, ih⟩

theorem MarkedRun.undotted {radix : Nat} (small : radix ≤ 16) {cs : List Char} {ds : List Nat}
    (h : MarkedRun radix cs ds) : '.' ∉ cs := by
  cases h with
  | next run => exact run.undotted small
  | separated run => simpa using run.undotted small

theorem Denotes.undotted {cs : List Char} {n : Nat} (h : Denotes cs n) : '.' ∉ cs := by
  cases h with
  | hexadecimal letter digits =>
    rcases letter with rfl | rfl <;> simpa using digits.undotted (by decide)
  | binary letter digits =>
    rcases letter with rfl | rfl <;> simpa using digits.undotted (by decide)
  | octal letter digits =>
    rcases letter with rfl | rfl <;> simpa using digits.undotted (by decide)
  | leadingZero digits => simpa using digits.undotted (by decide)
  | zero => decide
  | decimal digits _ => exact digits.undotted (by decide)

theorem SignedDenotes.undotted {cs : List Char} {n : Int} (h : SignedDenotes cs n) :
    '.' ∉ cs := by
  cases h with
  | plain literal => exact literal.undotted
  | plus literal | minus literal => simpa using literal.undotted

theorem SignedDenotes.ne_nil {cs : List Char} {n : Int} (h : SignedDenotes cs n) : cs ≠ [] := by
  cases h with
  | plain literal =>
    obtain ⟨c, rest, -, rfl, -⟩ := literal.head
    exact List.cons_ne_nil c rest
  | plus | minus => exact List.cons_ne_nil _ _

end IntegerLiteral

namespace Path

theorem parse_single {expression : String} (nonempty : expression ≠ "")
    (undotted : '.' ∉ expression.toList) : parse expression = ⟨[⟨expression⟩]⟩ := by
  have filled : expression.toList.isEmpty = false := by
    simpa [List.isEmpty_eq_false_iff] using nonempty
  simp [parse, splitDots_eq_splitOn, List.splitOn_eq_singleton undotted, filled]

/-! ## Ranks -/

/-- The same named values in the byte order of their names, equal names in their order. -/
structure Ranks (named ranked : Fields) : Prop where
  perm : ranked.Perm named
  ordered : ranked.Pairwise fun a b => Text.utf8Encode a.1 ≤ Text.utf8Encode b.1
  stable : ∀ name, ranked.filter (·.1 == name) = named.filter (·.1 == name)

theorem sortByName_ranks (named : Fields) : Ranks named (sortByName named) := by
  have trans (a b c : String × Value) : decide (a.1 ≤ b.1) = true → decide (b.1 ≤ c.1) = true →
      decide (a.1 ≤ c.1) = true := by
    simpa using le_trans
  have total (a b : String × Value) : (decide (a.1 ≤ b.1) || decide (b.1 ≤ a.1)) = true := by
    simpa using le_total a.1 b.1
  have perm : (sortByName named).Perm named := List.mergeSort_perm _ _
  refine ⟨perm, ?_, fun name => ?_⟩
  · refine (List.pairwise_mergeSort trans total named).imp fun le => ?_
    exact Text.utf8Encode_le_iff.2 (of_decide_eq_true le)
  · -- Equal names are sorted already, and a sort keeps what is sorted as it stands.
    have sorted : (named.filter (·.1 == name)).Pairwise fun a b => decide (a.1 ≤ b.1) = true := by
      refine List.pairwise_of_forall_mem_list fun a ha b hb => ?_
      have sameName := (List.mem_filter.1 ha).2
      have sameName' := (List.mem_filter.1 hb).2
      simp_all
    have sublist := List.sublist_mergeSort trans total sorted List.filter_sublist
    have kept := sublist.filter (·.1 == name)
    rw [List.filter_filter] at kept
    simp only [Bool.and_self] at kept
    exact (kept.eq_of_length (perm.filter _).length_eq.symm).symm

/-- The first of each name is the same in either order. -/
theorem Ranks.find?_eq {named ranked : Fields} (h : Ranks named ranked) (name : String) :
    ranked.find? (·.1 == name) = named.find? (·.1 == name) := by
  rw [← List.head?_filter, h.stable, List.head?_filter]

theorem find?_of_first {ranked : Fields} {name : String} {i : Nat} {w : Value}
    (here : ranked[i]? = some (name, w)) (first : ∀ j < i, (ranked[j]?).map (·.1) ≠ some name) :
    ranked.find? (·.1 == name) = some (name, w) := by
  obtain ⟨inside, eq⟩ := List.getElem?_eq_some_iff.1 here
  refine List.find?_eq_some_iff_getElem.2 ⟨beq_self_eq_true name, i, inside, eq, fun j hj => ?_⟩
  have other := first j hj
  rw [List.getElem?_eq_getElem (Nat.lt_trans hj inside)] at other
  simpa using other

end Path

/-! ## Named values -/

theorem Value.elemString?_eq_some_iff {v : Value} {s : String} :
    v.elemString? = some s ↔ v.elem = .string s := by
  refine ⟨fun text => (elem_of_elemString? text).1, fun text => ?_⟩
  fun_induction elem v with
  | case1 _ _ ih => exact ih text
  | case2 =>
    subst text
    rfl

theorem Value.elemString?_eq_none_iff {v : Value} :
    v.elemString? = none ↔ ∀ s, v.elem ≠ .string s := by
  simp only [Option.eq_none_iff_forall_ne_some, ne_eq, elemString?_eq_some_iff]

/-- The named values of a map: one for each entry whose key is a text, behind pointers or not, in
the order of the entries, and no others. -/
inductive Entries.Named : Entries → Fields → Prop
  | nil : Named [] []
  | text {key v : Value} {name : String} {entries : Entries} {named : Fields}
      (leads : key.elem = .string name) (rest : Named entries named) :
      Named ((key, v) :: entries) ((name, v) :: named)
  | other {key v : Value} {entries : Entries} {named : Fields}
      (leads : ∀ name, key.elem ≠ .string name) (rest : Named entries named) :
      Named ((key, v) :: entries) named

namespace Path

theorem namedEntries_eq_iff {entries : Entries} {named : Fields} :
    namedEntries entries = named ↔ entries.Named named := by
  constructor
  · rintro rfl
    induction entries with
    | nil => exact .nil
    | cons e entries ih =>
      rw [namedEntries, List.filterMap_cons]
      cases text : e.1.elemString? with
      | some name => exact .text (Value.elemString?_eq_some_iff.1 text) ih
      | none => exact .other (Value.elemString?_eq_none_iff.1 text) ih
  · intro h
    induction h with
    | nil => rfl
    | text leads _ ih =>
      rw [namedEntries, List.filterMap_cons, Value.elemString?_eq_some_iff.2 leads, ← ih]
      rfl
    | other leads _ ih =>
      rw [namedEntries, List.filterMap_cons, Value.elemString?_eq_none_iff.2 leads, ← ih]
      rfl

theorem isNamed_of_text {options : PathOptions} (exactly : options.ignoreCase = false)
    (name : String) {v : Value} {s : String} (leads : v.elem = .string s) :
    isNamed options name v = (s == name) := by
  have text := Value.elem_of_elemString? (Value.elemString?_eq_some_iff.2 leads)
  rw [isNamed, text.2, Option.any_some, PathOptions.matchesName, exactly]
  rfl

end Path

/-- Where all keys are texts, the first entry that a name finds is the first named value of it. -/
theorem Entries.Named.find?_eq {entries : Entries} {named : Fields} (h : entries.Named named)
    (texts : ∀ e ∈ entries, e.1.elemString?.isSome) {options : PathOptions}
    (exactly : options.ignoreCase = false) (name : String) :
    (entries.find? fun e => Path.isNamed options name e.1).map (·.2) =
      (named.find? (·.1 == name)).map (·.2) := by
  induction h with
  | nil => rfl
  | @text key v s entries named leads _ ih =>
    have rest := ih (List.forall_mem_cons.1 texts).2
    simp only [List.find?_cons, Path.isNamed_of_text exactly name leads]
    cases s == name with
    | true => rfl
    | false => exact rest
  | other leads =>
    obtain ⟨s, text⟩ := Option.isSome_iff_exists.1 (List.forall_mem_cons.1 texts).1
    exact absurd (Value.elemString?_eq_some_iff.1 text) (leads s)

namespace Value

open Recast.Path

/-- The named values of a map or a struct, in the order in which a name is looked for. Those of a
map are told by `Path.namedEntries_eq_iff`. -/
def named? : Value → Option Fields
  | .map _ _ entries => some (namedEntries entries)
  | .struct _ fields => some fields.reverse
  | _ => none

/-- No key of a map is anything else than a text. -/
def allNamed : Value → Bool
  | .map _ _ entries => entries.all fun e => e.1.elemString?.isSome
  | _ => true

theorem step?_position {v : Value} {named : Fields} (parts : v.named? = some named)
    {segment : Segment} {n : Int} (index : segment.index? = some n) (options : PathOptions) :
    step? options segment v =
      some (if n < 0 then none else ((sortByName named)[n.toNat]?).map (·.2)) := by
  cases v with
  | map | struct =>
    cases parts
    simp only [step?, mapStep, structStep, index, itemAt?]
    split <;> rfl
  | _ => cases parts

theorem step?_name {v : Value} {named : Fields} (parts : v.named? = some named)
    (all : v.allNamed) {segment : Segment} (unnumbered : segment.index? = none)
    {options : PathOptions} (exactly : options.ignoreCase = false) :
    step? options segment v = some ((named.find? (·.1 == segment.text)).map (·.2)) := by
  cases v with
  | map key value entries =>
    cases parts
    have texts := List.all_eq_true.1 all
    have found := (namedEntries_eq_iff.1 rfl).find?_eq texts exactly segment.text
    simp only [step?, mapStep, unnumbered, found]
  | struct name fields =>
    cases parts
    simp [step?, structStep, unnumbered, PathOptions.matchesName, exactly]
  | _ => cases parts

theorem find?_single {v : Value} {expression : String} (nonempty : expression ≠ "")
    (undotted : '.' ∉ expression.toList) {options : PathOptions} {found : Option Value}
    (step : step? options ⟨expression⟩ v.elem = some found) :
    v.find? expression options = .ok found := by
  rw [find?, parse_single nonempty undotted, evaluate, walk, step]
  cases found <;> rfl

/-- **Positions and names lead to the same values.** In a map or a struct the literals of 0, 1, ...
lead to the named values in the byte order of their names, and any other position to nothing. The
first position of a name leads where the name itself does. -/
theorem find?_position {v : Value} {named : Fields} (parts : v.elem.named? = some named) :
    let ranked := sortByName named
    Ranks named ranked ∧
    (∀ (expression : String) (n : Int), IntegerLiteral.SignedDenotes expression.toList n →
      -2 ^ 63 ≤ n → n < 2 ^ 63 → ∀ options : PathOptions,
        v.find? expression options = .ok (if n < 0 then none else (ranked[n.toNat]?).map (·.2))) ∧
    (v.elem.allNamed → ∀ {name : String}, (Segment.mk name).IsName → ∀ {i : Nat} {w : Value},
      ranked[i]? = some (name, w) → (∀ j < i, (ranked[j]?).map (·.1) ≠ some name) →
        ∀ options : PathOptions, options.ignoreCase = false →
          v.find? name options = .ok (some w)) := by
  intro ranked
  have ranks : Ranks named ranked := sortByName_ranks named
  refine ⟨ranks, fun expression n literal low high options => ?_,
    fun all name isName i w here first options exactly => ?_⟩
  · have nonempty := mt String.toList_eq_nil_iff.2 literal.ne_nil
    refine find?_single nonempty literal.undotted (step?_position parts ?_ options)
    exact Segment.index?_eq_some.2 ⟨literal, low, high⟩
  · refine find?_single isName.nonempty isName.undotted ?_
    rw [step?_name parts all isName.unnumbered exactly, ← ranks.find?_eq,
      find?_of_first here first]
    rfl

/-- Two keys are equal, one of them behind a pointer, and a capital letter comes first. -/
theorem find?_position_hosts :
    let v : Value := .map .string .any
      [(.string "port", .int .int 1), ((Value.string "host").pointerTo, .int .int 2),
        (.string "host", .int .int 3), (.string "Zone", .int .int 4)]
    v.elem.allNamed ∧ v.find? "-0x0" = .ok (some (.int .int 4)) ∧
      v.find? "0b0_1" = .ok (some (.int .int 2)) ∧ v.find? "host" = .ok (some (.int .int 2)) ∧
      v.find? "+3" = .ok (some (.int .int 1)) ∧ v.find? "04" = .ok none ∧
      v.find? "-1" = .ok none := by
  intro v
  have parts : v.elem.named? = some [("port", .int .int 1), ("host", .int .int 2),
      ("host", .int .int 3), ("Zone", .int .int 4)] := rfl
  obtain ⟨-, positions, names⟩ := find?_position parts
  have ranked : sortByName [("port", .int .int 1), ("host", .int .int 2), ("host", .int .int 3),
      ("Zone", .int .int 4)] = [("Zone", .int .int 4), ("host", .int .int 2),
      ("host", .int .int 3), ("port", .int .int 1)] := by
    simp [sortByName, List.mergeSort, List.MergeSort.Internal.splitInTwo]
  rw [ranked] at positions names
  have denotes := @IntegerLiteral.signed?_eq_some
  refine ⟨rfl, ?_, ?_, ?_, ?_, ?_, ?_⟩
  · exact positions "-0x0" 0 (denotes.1 rfl) (by decide) (by decide) {}
  · exact positions "0b0_1" 1 (denotes.1 rfl) (by decide) (by decide) {}
  · exact names rfl ⟨by decide, by decide, rfl⟩ (i := 1) rfl (by decide) {} rfl
  · exact positions "+3" 3 (denotes.1 rfl) (by decide) (by decide) {}
  · exact positions "04" 4 (denotes.1 rfl) (by decide) (by decide) {}
  · exact positions "-1" (-1) (denotes.1 rfl) (by decide) (by decide) {}

end Value

end Recast
