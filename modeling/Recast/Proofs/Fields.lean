import Recast.Proofs.Choice
import Recast.Proofs.Slots
import Recast.Recipe.Actions

/-!
Structs that are filled by name. Nothing is assumed of the nested conversions, so recipes of one's
own may write into the fields. Each name means one field at most, the first that it matches up to
case, and the values that mean a field are converted into it in turn, from what it held
(`Scope.Merged`). The other fields, and what the struct is called, stay as they are.
-/

namespace Recast

open Outcome Recipe

/-- A name means the first field that it matches up to case. -/
def Fields.means (fields : Fields) (name : String) (i : Nat) : Bool :=
  (fields[i]?.any fun f => Text.foldEq f.1 name) &&
    (fields.take i).all fun f => !Text.foldEq f.1 name

namespace Scope

variable (scope : Scope)

/-- The names that a source has, in order, and a value for each. Keys are converted to names. -/
def Names : Value → Fields → Prop
  | .struct _ fields, named => fields = named
  | .map _ _ entries, named =>
    List.Forall₂ (fun e n => ∃ key, scope.nested e.1 (.string "") = .done key ∧
      (nameOf key, e.2) = n) entries named
  | _, _ => False

/-- What becomes of fields to which named values are assigned. -/
structure Merged (named fields fields' : Fields) : Prop where
  names : fields'.map (·.1) = fields.map (·.1)
  /-- Each field is converted from the values whose names mean it, in turn. -/
  slots : ∀ (i : Nat) f f', fields[i]? = some f → fields'[i]? = some f' →
    convertAll scope.nested f.2 ((named.filter fun n => fields.means n.1 i).map (·.2)) = .done f'.2
  known : scope.settings.skipUnknownFields = false →
    ∀ n ∈ named, ∃ f ∈ fields, Text.foldEq f.1 n.1

/-- The struct that live pointers lead to is filled with what the source names. -/
def Fills (src dst dst' : Value) : Prop :=
  ∃ struct fields fields' named, dst.elem = .struct struct fields ∧ scope.Names src.elem named ∧
    scope.Merged named fields fields' ∧ dst' = dst.mapElem fun _ => .struct struct fields'

end Scope

namespace Recipe

variable {scope : Scope}

/-! ## Names -/

theorem slotOf_eq_some_iff {fields : Fields} {name : String} {i : Nat} :
    slotOf (fields.map (·.1)) name = some i ↔ fields.means name i = true := by
  simp only [slotOf, List.findIdx?_map, Function.comp_def, List.findIdx?_eq_some_iff_getElem,
    Fields.means, Bool.and_eq_true, Option.any_eq_true, List.all_eq_true, Bool.not_eq_true']
  constructor
  · rintro ⟨inside, here, before⟩
    refine ⟨⟨_, List.getElem?_eq_getElem inside, here⟩, fun f hf => ?_⟩
    obtain ⟨j, hj, rfl⟩ := List.mem_take_iff_getElem.1 hf
    exact Bool.eq_false_iff.2 (before j (by omega))
  · rintro ⟨⟨f, at_i, here⟩, before⟩
    obtain ⟨inside, rfl⟩ := List.getElem?_eq_some_iff.1 at_i
    refine ⟨inside, here, fun j hj => ?_⟩
    have := before _ (List.mem_take_iff_getElem.2 ⟨j, by omega, rfl⟩)
    exact Bool.eq_false_iff.1 this

theorem valuesFor_eq (fields named : Fields) (i : Nat) :
    valuesFor (fields.map (·.1)) named i =
      (named.filter fun n => fields.means n.1 i).map (·.2) := by
  have same (n : String × Value) :
      (slotOf (fields.map (·.1)) n.1 == some i) = fields.means n.1 i := by
    rw [Bool.eq_iff_iff, beq_iff_eq, slotOf_eq_some_iff]
  simp only [valuesFor, same]

theorem merged_iff {struct : String} {named fields fields' : Fields} :
    scope.Merged named fields fields' ↔
      assignAll scope.nested scope.settings.skipUnknownFields struct fields named =
        .done fields' := by
  have unknown (n : String × Value) :
      slotOf (fields.map (·.1)) n.1 = none ↔ ¬∃ f ∈ fields, Text.foldEq f.1 n.1 = true := by
    simp [slotOf, List.findIdx?_eq_none_iff]
  simp only [assignAll_eq_done, valuesFor_eq, unknown]
  constructor
  · rintro ⟨names, slots, known⟩
    refine ⟨fun n hn missing => ?_, names, slots⟩
    by_contra strict
    exact missing (known (Bool.eq_false_iff.2 strict) n hn)
  · rintro ⟨known, names, slots⟩
    refine ⟨names, slots, fun strict n hn => ?_⟩
    by_contra missing
    exact Bool.false_ne_true (strict.symm.trans (known n hn missing))

/-! ## Fields that nothing is meant for -/

theorem getElem?_of_not_means {named fields fields' : Fields}
    (merged : scope.Merged named fields fields') {i : Nat} {f : String × Value}
    (at_i : fields[i]? = some f) (apart : ∀ n ∈ named, fields.means n.1 i = false) :
    fields'[i]? = some f := by
  have name : fields'[i]?.map (·.1) = some f.1 := by
    rw [← List.getElem?_map, merged.names, List.getElem?_map, at_i]
    rfl
  obtain ⟨f', at_i', sameName⟩ := Option.map_eq_some_iff.1 name
  have none : (named.filter fun n => fields.means n.1 i) = [] := by
    simpa [List.filter_eq_nil_iff] using apart
  have slot := merged.slots i f f' at_i at_i'
  rw [none, List.map_nil, convertAll_nil, Outcome.done.injEq] at slot
  rw [at_i', Prod.ext sameName slot.symm]

/-- A name that would match a field matches each earlier one that is called the same. -/
theorem not_means_of_shadowed {fields : Fields} {i : Nat} {f : String × Value}
    (at_i : fields[i]? = some f) (shadowed : ∃ g ∈ fields.take i, Text.foldEq g.1 f.1)
    (name : String) : fields.means name i = false := by
  obtain ⟨g, earlier, same⟩ := shadowed
  rw [Bool.eq_false_iff]
  intro means
  simp only [Fields.means, at_i, Option.any_some, Bool.and_eq_true, List.all_eq_true] at means
  have differs := means.2 g earlier
  rw [Text.foldEq_trans same means.1] at differs
  cases differs

theorem not_means_of_unmatched {fields : Fields} {i : Nat} {f : String × Value}
    (at_i : fields[i]? = some f) {name : String} (unmatched : Text.foldEq f.1 name = false) :
    fields.means name i = false := by
  simp [Fields.means, at_i, unmatched]

/-! ## Actions -/

theorem writeFields_eq_done {write : String → Fields → Outcome Cause Fields} {dst dst' : Value} :
    writeFields write dst = .done dst' ↔
      ∃ struct fields fields', dst.elem = .struct struct fields ∧
        write struct fields = .done fields' ∧
        dst' = dst.mapElem fun _ => .struct struct fields' := by
  unfold writeFields
  fun_induction Value.mapElem (fun v => v) dst generalizing dst' with
  | case1 pointee target ih =>
    simp only [Value.writeElem, map_eq_done, ih, Value.elem, Value.mapElem]
    constructor
    · rintro ⟨_, ⟨struct, fields, fields', at_struct, written, rfl⟩, rfl⟩
      exact ⟨struct, fields, fields', at_struct, written, rfl⟩
    · rintro ⟨struct, fields, fields', at_struct, written, rfl⟩
      exact ⟨_, ⟨struct, fields, fields', at_struct, written, rfl⟩, rfl⟩
  | case2 v plain =>
    cases v with
    | pointer pointee target => exact absurd rfl (plain pointee target)
    | struct struct fields =>
      simp only [Value.writeElem, map_eq_done, Value.elem, Value.mapElem]
      constructor
      · rintro ⟨fields', written, rfl⟩
        exact ⟨struct, fields, fields', rfl, written, rfl⟩
      · rintro ⟨_, _, fields', same, written, rfl⟩
        cases same
        exact ⟨fields', written, rfl⟩
    | _ => simp [Value.writeElem, Value.elem]

/-- Writing the fields is filling the struct where it is assigning what the source names. -/
theorem writeFields_fills (scope : Scope) (src : Value)
    {write : String → Fields → Outcome Cause Fields} {dst dst' : Value}
    (assigns : ∀ struct fields fields', write struct fields = .done fields' ↔
      ∃ named, scope.Names src.elem named ∧
        assignAll scope.nested scope.settings.skipUnknownFields struct fields named =
          .done fields') :
    writeFields write dst = .done dst' ↔ scope.Fills src dst dst' := by
  simp only [writeFields_eq_done, assigns, ← merged_iff, Scope.Fills]
  constructor
  · rintro ⟨struct, fields, fields', at_struct, ⟨named, given, merged⟩, rfl⟩
    exact ⟨struct, fields, fields', named, at_struct, given, merged, rfl⟩
  · rintro ⟨struct, fields, fields', named, at_struct, given, merged, rfl⟩
    exact ⟨struct, fields, fields', at_struct, ⟨named, given, merged⟩, rfl⟩

theorem mapToStruct_eq_done {src dst dst' : Value} :
    mapToStruct scope src dst = .done dst' ↔ src.shape = .map ∧ scope.Fills src dst dst' := by
  rw [← src.shape_elem, mapToStruct]
  split
  · next elem =>
    rw [writeFields_fills scope src, elem, Value.shape, eq_self, true_and]
    intro struct fields fields'
    rw [elem]
    exact assignEntries_eq_done
  · next notMap =>
    refine iff_of_false (by simp) fun h => ?_
    obtain ⟨key, value, entries, elem⟩ := Value.shape_eq_map (src.shape_elem ▸ h.1)
    exact notMap key value entries elem

theorem structToStruct_eq_done {src dst dst' : Value} :
    structToStruct scope src dst = .done dst' ↔
      src.shape = .struct ∧ scope.Fills src dst dst' := by
  rw [← src.shape_elem, structToStruct]
  split
  · next elem =>
    rw [writeFields_fills scope src, elem, Value.shape, eq_self, true_and]
    intro struct fields fields'
    rw [elem]
    constructor
    · intro assigned
      exact ⟨_, rfl, assigned⟩
    · rintro ⟨_, rfl, assigned⟩
      exact assigned
  · next notStruct =>
    refine iff_of_false (by simp) fun h => ?_
    obtain ⟨name, fields, elem⟩ := Value.shape_eq_struct (src.shape_elem ▸ h.1)
    exact notStruct name fields elem

/-- **A struct is filled by name**, from a map or from a struct, whatever nested conversions do. A
field that no name matches stays as it is, and so does one behind a field that is called the same up
to case. -/
theorem toStruct_eq_done (scope : Scope) (src dst dst' : Value) :
    (mapToStruct scope src dst = .done dst' ↔ src.shape = .map ∧ scope.Fills src dst dst') ∧
    (structToStruct scope src dst = .done dst' ↔ src.shape = .struct ∧ scope.Fills src dst dst') ∧
    ∀ {named fields fields' : Fields}, scope.Merged named fields fields' →
      ∀ {i : Nat} {f : String × Value}, fields[i]? = some f →
        (∀ n ∈ named, Text.foldEq f.1 n.1 = false) ∨ (∃ g ∈ fields.take i, Text.foldEq g.1 f.1) →
          fields'[i]? = some f := by
  refine ⟨mapToStruct_eq_done, structToStruct_eq_done, fun merged i f at_i apart => ?_⟩
  refine getElem?_of_not_means merged at_i fun n hn => ?_
  rcases apart with unmatched | shadowed
  · exact not_means_of_unmatched at_i (unmatched n hn)
  · exact not_means_of_shadowed at_i shadowed n.1

/-- Two keys mean the first field, one after the other, and a recipe of its own puts them there. The
second field is called the same and is left alone. -/
theorem toStruct_eq_done_shadowed :
    let ctx : Context :=
      { callRecipes := []
        recipes := ⟨.ofType (.scalar (.int .int)), .ofType .string, describe⟩ :: standard
        settings := {} }
    let scope : Scope := ⟨ctx.settings, ctx.convert 2⟩
    let src : Value :=
      .map .string .any [(.string "total", .int .int 7), (.string "TOTAL", .int .int 8)]
    let fields (total : String) : Fields :=
      [("Total", .string total), ("total", .string "b"), ("Note", .nil)]
    let total := "8 skip=false mode=into_existing was=7 skip=false mode=into_existing was=a"
    let dst : Value := .struct "Order" (fields "a")
    let dst' : Value := .struct "Order" (fields total)
    mapToStruct scope src dst = .done dst' ∧ scope.Fills src dst dst' ∧
      ∀ {named fields' : Fields}, scope.Merged named (fields "a") fields' →
        fields'[1]? = some ("total", .string "b") := by
  intro ctx scope src fields total dst dst'
  obtain ⟨ofMap, -, apart⟩ := toStruct_eq_done scope src dst dst'
  have filled : mapToStruct scope src dst = .done dst' := rfl
  refine ⟨filled, (ofMap.1 filled).2, fun merged => apart merged rfl (.inr ?_)⟩
  exact ⟨_, List.mem_cons_self, rfl⟩

end Recipe

/-- Where the recipe that is found fills a struct by name, so does the conversion. -/
theorem Context.convert_eq_done_of_byName {ctx : Context} {recipe : Recipe} {budget : Nat}
    {src dst dst' : Value} (typed : dst ≠ .nil)
    (found : ctx.recipe? src (ctx.start dst) = some recipe)
    (byName : src.shape = .map ∧ recipe.action = mapToStruct ∨
      src.shape = .struct ∧ recipe.action = structToStruct) :
    ctx.convert (budget + 1) src dst = .done dst' ↔
      Scope.Fills ⟨ctx.settings, ctx.convert budget⟩ src (ctx.start dst) dst' := by
  have notNil : dst.isNil = false := by
    cases dst <;> first | rfl | exact absurd rfl typed
  simp only [convert, notNil, Bool.false_eq_true, if_false, found, mapError_eq_done]
  rcases byName with ⟨shape, action⟩ | ⟨shape, action⟩
  · rw [action, mapToStruct_eq_done]
    exact and_iff_right shape
  · rw [action, structToStruct_eq_done]
    exact and_iff_right shape

end Recast
