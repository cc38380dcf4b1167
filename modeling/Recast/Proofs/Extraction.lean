import Recast.Conversion.Extract
import Recast.Proofs.Paths
import Recast.Proofs.Replacement

/-!
Converting a whole and converting its parts. Along a path of field names, a conversion sends the
part of the source that the path finds, up to case, to the part of the result that it finds
(`Settings.result?_along`). Each step of the path goes through one struct of the result, whose field
is converted from one value of the source and from no other, because names are apart on both sides.
-/

namespace Recast

open Outcome Recipe

/-! ## Paths in types and in sources -/

/-- Field names lead from a struct type, or from a pointer to it, to the type of the last field. The
names of each struct type on the way are apart. -/
inductive Ty.Leads : Ty → List String → Ty → Prop
  | here (t : Ty) : Leads t [] t
  | field {t u last : Ty} {struct name : String} {fields : List (String × Ty)}
      {names : List String} (struct_eq : t.elem = .struct struct fields)
      (apart : fields.Pairwise fun f g => Text.foldEq f.1 g.1 = false)
      (member : (name, u) ∈ fields) (rest : Leads u names last) : Leads t (name :: names) last

/-- The keys of a map are texts, and no two names are the same up to case. -/
def Value.PlainlyNamed : Value → Prop
  | .map _ _ entries =>
    (∀ e ∈ entries, e.1.elemString?.isSome) ∧ Fields.Apart (Path.namedEntries entries)
  | .struct _ fields => Fields.Apart fields
  | _ => True

instance (fields : Fields) : Decidable fields.Apart :=
  inferInstanceAs (Decidable (List.Pairwise _ fields))

instance : ∀ v : Value, Decidable v.PlainlyNamed
  | .map .. => inferInstanceAs (Decidable (_ ∧ _))
  | .struct _ fields => inferInstanceAs (Decidable (Fields.Apart fields))
  | .nil | .scalar _ | .seq .. | .pointer .. | .nilPointer _ => inferInstanceAs (Decidable True)

/-- What a walk without regard to case meets on its way is plainly named. -/
def Value.PlainAlong : List String → Value → Prop
  | [], _ => True
  | name :: names, v =>
    v.elem.PlainlyNamed ∧
      ∀ next, Path.step? { ignoreCase := true } ⟨name⟩ v.elem = some (some next) →
        next.PlainAlong names

/-! ## Names of a source -/

theorem Value.elem_of_elemString? {v : Value} {s : String} (h : v.elemString? = some s) :
    v.elem = .string s ∧ v.scalarText? = some s := by
  fun_induction Value.elemString? v with
  | case1 t =>
    cases h
    exact ⟨rfl, rfl⟩
  | case2 pointee target ih => exact ih h
  | case3 => cases h

namespace Settings

variable {σ : Settings}

/-- A text is converted to the name that it is. -/
theorem result?_name {v : Value} {s : String} (h : v.elemString? = some s) :
    σ.result? v (.string "") = some (.string s) := by
  have notNil : Value.string "" ≠ .nil := by simp
  rw [← σ.result?_elem v notNil, (Value.elem_of_elemString? h).1]
  exact σ.result?_scalar_of_coerce (k := .string) rfl

theorem Names.eq_namedEntries {key value : Ty} {entries : Entries} {named : Fields}
    (texts : ∀ e ∈ entries, e.1.elemString?.isSome) (h : σ.Names (.map key value entries) named) :
    named = Path.namedEntries entries := by
  simp only [Names] at h
  induction h with
  | nil => rfl
  | @cons e n entries named head _ ih =>
    obtain ⟨text, rest⟩ := List.forall_mem_cons.1 texts
    obtain ⟨s, hs⟩ := Option.isSome_iff_exists.1 text
    obtain ⟨k, converted, rfl⟩ := head
    rw [result?_name hs, Option.some.injEq] at converted
    subst converted
    rw [ih rest]
    simp [Path.namedEntries, hs, nameOf]

theorem Names.apart {v : Value} {named : Fields} (plain : v.PlainlyNamed) (h : σ.Names v named) :
    named.Apart := by
  cases v with
  | map key value entries =>
    rw [h.eq_namedEntries plain.1]
    exact plain.2
  | struct name fields =>
    obtain rfl : fields = named := h
    exact plain
  | _ => exact h.elim

/-- What a name leads to, up to case, is what the source has under that name. -/
theorem Names.mem_of_step? {v next : Value} {named : Fields} {segment : Segment}
    (plain : v.PlainlyNamed) (h : σ.Names v named) (unnumbered : segment.index? = none)
    (step : Path.step? { ignoreCase := true } segment v = some (some next)) :
    ∃ p ∈ named, Text.foldEq p.1 segment.text = true ∧ p.2 = next := by
  cases v with
  | map key value entries =>
    simp only [Path.step?, Path.mapStep, unnumbered, Option.some.injEq,
      Option.map_eq_some_iff] at step
    obtain ⟨e, found, rfl⟩ := step
    have member := List.mem_of_find?_eq_some found
    obtain ⟨s, hs⟩ := Option.isSome_iff_exists.1 (plain.1 e member)
    have same := List.find?_some found
    simp only [Path.isNamed, (Value.elem_of_elemString? hs).2, PathOptions.matchesName] at same
    refine ⟨(s, e.2), ?_, by simpa using same, rfl⟩
    rw [h.eq_namedEntries plain.1, Path.namedEntries, List.mem_filterMap]
    exact ⟨e, member, by rw [hs]; rfl⟩
  | struct name fields =>
    obtain rfl : fields = named := h
    simp only [Path.step?, Path.structStep, unnumbered, Option.some.injEq,
      Option.map_eq_some_iff] at step
    obtain ⟨field, found, rfl⟩ := step
    have member := List.mem_reverse.1 (List.mem_of_find?_eq_some found)
    have same := List.find?_some found
    exact ⟨field, member, by simpa [PathOptions.matchesName] using same, rfl⟩
  | _ => exact h.elim

end Settings

/-! ## One step -/

namespace Recipe

theorem slotOf_congr (names : List String) {a b : String} (h : Text.foldEq a b = true) :
    slotOf names a = slotOf names b := by
  have same : ∀ n, Text.foldEq n a = Text.foldEq n b := by
    intro n
    rw [Bool.eq_iff_iff]
    exact ⟨fun ha => Text.foldEq_trans ha h, fun hb => Text.foldEq_trans hb (Text.foldEq_symm h)⟩
  simp only [slotOf, same]

/-- A value that is meant for a field is all that the field is given. -/
theorem valuesFor_of_mem {names : List String} {named : Fields} (apart : named.Apart)
    {p : String × Value} (member : p ∈ named) {i : Nat} (meant : slotOf names p.1 = some i) :
    valuesFor names named i = [p.2] := by
  have given : p.2 ∈ valuesFor names named i := by
    rw [valuesFor]
    exact List.mem_map_of_mem (List.mem_filter.2 ⟨member, by simp [meant]⟩)
  rcases valuesFor_apart apart i with none | ⟨q, -, one⟩
  · rw [none] at given
    cases given
  · rw [one] at given ⊢
    rw [List.mem_singleton.1 given]

end Recipe

namespace Settings

variable {σ : Settings}

/-- A nil pointer to a struct is allocated, and what it leads to is converted as the struct is. -/
theorem result?_zero_elem {t : Ty} {struct : String} {fields : List (String × Ty)}
    (ht : t.elem = .struct struct fields) {src r : Value} (live : src.elem.isPointer = false)
    (converted : σ.result? src t.zero = some r) :
    ∃ r', σ.result? src (Ty.struct struct fields).zero = some r' ∧ r'.elem = r.elem := by
  fun_induction Ty.elem t generalizing r with
  | case1 pointee ih =>
    have notNil : pointee.zero ≠ .nil := by
      apply Ty.zero_ne_nil
      rintro rfl
      cases ht
    rw [Ty.zero, σ.result?_nilPointer_right pointee live, σ.result?_elem src notNil,
      Option.map_eq_some_iff] at converted
    obtain ⟨target, inside, rfl⟩ := converted
    obtain ⟨whole, done, same⟩ := ih ht inside
    exact ⟨whole, done, same⟩
  | case2 t =>
    subst ht
    exact ⟨r, converted, rfl⟩

/-- One step along a path of names, in a source and in what it is converted to. -/
theorem result?_step {t u : Ty} {struct name : String} {fields : List (String × Ty)}
    (ht : t.elem = .struct struct fields)
    (apart : fields.Pairwise fun f g => Text.foldEq f.1 g.1 = false) (member : (name, u) ∈ fields)
    (unnumbered : (Segment.mk name).index? = none) {src r next : Value}
    (plain : src.elem.PlainlyNamed) (converted : σ.result? src t.zero = some r)
    (step : Path.step? { ignoreCase := true } ⟨name⟩ src.elem = some (some next)) :
    ∃ slot, σ.result? next u.zero = some slot ∧
      Path.step? {} ⟨name⟩ r.elem = some (some slot) := by
  have live : src.elem.isPointer = false := by
    cases elem : src.elem with
    | pointer | nilPointer => simp [elem, Path.step?] at step
    | _ => rfl
  obtain ⟨whole, converted, same⟩ := result?_zero_elem ht live converted
  have kept := σ.start_zero (.struct struct fields)
  rw [Ty.zero] at converted kept
  rcases (result?_struct_eq_some live kept).1 converted with ⟨none, -⟩ |
    ⟨named, slots, given, assigned, rfl⟩
  · simp [none, Path.step?] at step
  · obtain ⟨i, hi⟩ := List.mem_iff_getElem?.1 member
    have apartZero : Fields.Apart (Ty.zeroFields fields) := by
      rw [Ty.zeroFields_eq_map, Fields.Apart, List.pairwise_map]
      exact apart
    have zero_i : (Ty.zeroFields fields)[i]? = some (name, u.zero) := by
      rw [Ty.zeroFields_eq_map, List.getElem?_map, hi]
      rfl
    obtain ⟨-, names, each⟩ := assignAll_eq_done.1 assigned
    -- The field of the name is given the one value that the step finds.
    obtain ⟨p, hp, folded, rfl⟩ := given.mem_of_step? plain unnumbered step
    have own := slotOf_self apartZero zero_i
    have only := valuesFor_of_mem (given.apart plain) hp ((slotOf_congr _ folded).trans own)
    -- In the result the field stands where it stood before.
    obtain ⟨field, slot_i, fieldName⟩ : ∃ field, slots[i]? = some field ∧ field.1 = name := by
      have at_i := congrArg (·[i]?) names
      simpa [List.getElem?_map, zero_i] using at_i
    have filled := each i _ field zero_i slot_i
    rw [only, convertAll_singleton_eq_done, nested_eq_done] at filled
    refine ⟨field.2, filled, ?_⟩
    rw [← same]
    refine Path.step?_of_mem ?_ ?_ unnumbered
    · rw [names]
      simpa using apartZero.nodup_names id
    · rw [← fieldName]
      exact List.mem_of_getElem? slot_i

/-- **A conversion goes along paths.** What a path of field names finds in the source, up to case,
is converted into the last field, and the result is what the path finds in the whole result. -/
theorem result?_along {t last : Ty} {names : List String} (leads : t.Leads names last)
    (unnumbered : ∀ name ∈ names, (Segment.mk name).index? = none) {src r found : Value}
    (plain : src.PlainAlong names) (converted : σ.result? src t.zero = some r)
    (walked : Path.walk { ignoreCase := true } (names.map Segment.mk) src = .ok (some found)) :
    ∃ part, σ.result? found last.zero = some part ∧
      Path.walk {} (names.map Segment.mk) r = .ok (some part) := by
  induction leads generalizing src r with
  | here t =>
    cases walked
    exact ⟨r, converted, rfl⟩
  | @field t u last struct name fields names ht apart member _ ih =>
    obtain ⟨head, tail⟩ := List.forall_mem_cons.1 unnumbered
    obtain ⟨here, below⟩ := plain
    obtain ⟨next, step, rest⟩ := Path.walk_cons_eq_some.1 walked
    obtain ⟨slot, filled, step'⟩ := result?_step ht apart member head here converted step
    obtain ⟨part, done, rest'⟩ := ih tail (below next step) filled rest
    exact ⟨part, done, Path.walk_cons_eq_some.2 ⟨slot, step', rest'⟩⟩

end Settings

/-! ## Calls of the converter -/

/-- **A part of the whole is the part by itself.** When data is converted into a struct, and a path
of field names finds a value in it, up to case, then the value that is extracted along the path is
the one that the path finds, letter by letter, in the struct. -/
theorem Converter.Standard.extract_field {c : Converter} (h : c.Standard {}) {s t : Ty}
    {names : List String} (leads : s.Leads names t)
    (named : ∀ name ∈ names, (Segment.mk name).IsName) {data r found : Value}
    (plain : data.PlainAlong names) (converted : c.convert data s.zero = .done r)
    (finds : data.find? (Path.mk (names.map Segment.mk)).text { ignoreCase := true } =
      .ok (some found)) :
    ∃ part,
      c.extract { ignoreCase := true } data (Path.mk (names.map Segment.mk)).text t.zero =
        .done part ∧
      r.find? (Path.mk (names.map Segment.mk)).text {} = .ok (some part) := by
  have read : Path.parse (Path.mk (names.map Segment.mk)).text = ⟨names.map Segment.mk⟩ := by
    apply Path.parse_text
    intro segment hsegment
    obtain ⟨name, member, rfl⟩ := List.mem_map.1 hsegment
    exact (named name member).isPlain
  have walked := finds
  simp only [Value.find?, Path.evaluate, read] at walked
  obtain ⟨part, done, there⟩ := Settings.result?_along leads
    (fun name member => (named name member).unnumbered) plain (h.result?_eq_some.1 converted) walked
  refine ⟨part, ?_, ?_⟩
  · have extracted : c.convert found t.zero = .done part := h.result?_eq_some.2 done
    simp only [extract, finds, Option.getD_some, extracted, mapError]
  · simp only [Value.find?, Path.evaluate, read, there]

/-- The port of a listener: a pointer in the data and another one in the type. -/
theorem Converter.Standard.extract_field_port :
    let c : Converter := {}
    let port : Ty := .scalar (.int .uint16)
    let address : Ty := .struct "Address" [("Host", .string), ("Port", port)]
    let server : Ty := .struct "Server" [("Name", .string), ("Listen", .pointer address)]
    let listen : Value := .map .string .any [(.string "port", .string "80")]
    let data : Value := .map .string .any
      [(.string "LISTEN", listen.pointerTo), (.string "name", .int .int 5)]
    let names := ["Listen", "Port"]
    let r : Value := .struct "Server" [("Name", .string "5"), ("Listen",
      .pointer address (.struct "Address" [("Host", .string ""), ("Port", .int .uint16 80)]))]
    c.Standard {} ∧ server.Leads names port ∧ (∀ name ∈ names, (Segment.mk name).IsName) ∧
      data.PlainAlong names ∧ c.convert data server.zero = .done r ∧
      data.find? "Listen.Port" { ignoreCase := true } = .ok (some (.string "80")) ∧
      ∃ part,
        c.extract { ignoreCase := true } data "Listen.Port" port.zero = .done part ∧
        r.find? "Listen.Port" {} = .ok (some part) := by
  intro c port address server listen data names r
  have standard : c.Standard {} := ⟨rfl, rfl⟩
  have converted : c.convert data server.zero = .done r := rfl
  have finds : data.find? "Listen.Port" { ignoreCase := true } = .ok (some (.string "80")) := rfl
  have leads : server.Leads names port := by
    have outer : server.elem = server := rfl
    have inner : (Ty.pointer address).elem = address := rfl
    refine .field outer (by decide) ?_ (.field inner (by decide) ?_ (.here _))
    · exact List.mem_cons_of_mem _ List.mem_cons_self
    · exact List.mem_cons_of_mem _ List.mem_cons_self
  have named : ∀ name ∈ names, (Segment.mk name).IsName := by
    have each : ∀ name ∈ names, name ≠ "" ∧ '.' ∉ name.toList ∧
        (Segment.mk name).index? = none := by
      decide
    intro name member
    obtain ⟨nonempty, undotted, unnumbered⟩ := each name member
    exact ⟨nonempty, undotted, unnumbered⟩
  have plain : data.PlainAlong names := by
    refine ⟨by decide, ?_⟩
    intro next step
    cases step
    refine ⟨by decide, ?_⟩
    intro next step
    exact trivial
  have text : (Path.mk (names.map Segment.mk)).text = "Listen.Port" := rfl
  have extracted := standard.extract_field leads named plain converted (text ▸ finds)
  rw [text] at extracted
  exact ⟨standard, leads, named, plain, converted, finds, extracted⟩

end Recast
