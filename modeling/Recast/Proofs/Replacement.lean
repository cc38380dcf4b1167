import Recast.Proofs.Identity

/-!
Replacement is conversion into a fresh destination. A conversion that starts from a zero value has
the same result in either merge mode (`Settings.result?_zero_congr`), as long as it meets no slot
twice. Only structs let it do so, when two names of the source are the same up to case: items and
entries are converted from zero whatever came before. Hence the condition `Value.NamesApart`.
-/

namespace Recast

open Outcome Recipe

/-! ## Names that are apart -/

/-- No struct type has two fields with a name that is the same up to case. -/
def Ty.NamesApart (t : Ty) : Prop :=
  t.Everywhere fun u => ∀ {name : String} {fields : List (String × Ty)}, u = .struct name fields →
    fields.Pairwise fun f g => Text.foldEq f.1 g.1 = false

/-- No two names of the node are the same up to case. A key has the name that it is converted to. -/
structure Value.NamedApart (v : Value) : Prop where
  names : ∀ {named : Fields}, Settings.Names {} v named → named.Apart
  pointee : ∀ {t : Ty}, v = .nilPointer t → t.NamesApart

/-- The names of each node are apart, also in the struct types that nil pointers declare. -/
def Value.NamesApart (v : Value) : Prop := v.Everywhere Value.NamedApart

theorem Value.NamesApart.part {v c : Value} (h : v.NamesApart) (hc : c ∈ v.parts) : c.NamesApart :=
  Everywhere.part h hc

theorem Value.NamesApart.elem {v : Value} (h : v.NamesApart) : v.elem.NamesApart :=
  Everywhere.elem h

theorem Value.namesApart_scalar (s : Scalar) : (Value.scalar s).NamesApart :=
  everywhere_scalar.2 ⟨fun named => named.elim, by simp⟩

theorem Ty.NamesApart.zero {t : Ty} (h : t.NamesApart) : t.zero.NamesApart := by
  refine Value.Everywhere.zero h fun u apart => ?_
  cases u with
  | struct name fields =>
    refine ⟨fun {named} same => ?_, by simp [Ty.zero]⟩
    obtain rfl : Ty.zeroFields fields = named := same
    rw [Ty.zeroFields_eq_map, Fields.Apart, List.pairwise_map]
    exact apart.here rfl
  | map key value =>
    refine ⟨fun {named} none => ?_, by simp [Ty.zero]⟩
    obtain rfl : named = [] := List.forall₂_nil_left_iff.1 none
    exact .nil
  | pointer pointee =>
    refine ⟨fun {named} none => none.elim, fun same => ?_⟩
    cases same
    exact apart.part (List.mem_singleton_self pointee)
  | seq item length => cases length <;> exact ⟨fun {named} none => none.elim, by simp [Ty.zero]⟩
  | any | scalar => exact ⟨fun {named} none => none.elim, by simp [Ty.zero]⟩

namespace Recipe

theorem byShape_nil_left {shape : Shape} {action : Action}
    (h : byShape .nil shape = some action) : action = nilToZero := by
  cases shape <;> cases h <;> rfl

/-- Names that are apart are for different places. -/
theorem valuesFor_apart {names : List String} {named : Fields} (h : named.Apart) (i : Nat) :
    valuesFor names named i = [] ∨ ∃ p ∈ named, valuesFor names named i = [p.2] := by
  obtain ⟨meant, hmeant⟩ : ∃ meant, meant = named.filter fun p => slotOf names p.1 == some i :=
    ⟨_, rfl⟩
  have each : ∀ p ∈ meant, p ∈ named ∧ slotOf names p.1 = some i := by
    simp [hmeant]
  have apart : Fields.Apart meant := hmeant ▸ h.filter _
  rw [valuesFor, ← hmeant]
  rcases meant with _ | ⟨p, _ | ⟨q, rest⟩⟩
  · exact .inl rfl
  · exact .inr ⟨p, (each p List.mem_cons_self).1, rfl⟩
  · have hp := (each p List.mem_cons_self).2
    have hq := (each q (List.mem_cons_of_mem p List.mem_cons_self)).2
    obtain ⟨_, matches_p, -⟩ := List.findIdx?_eq_some_iff_getElem.1 hp
    obtain ⟨_, matches_q, -⟩ := List.findIdx?_eq_some_iff_getElem.1 hq
    have differ := (List.pairwise_cons.1 apart).1 q List.mem_cons_self
    rw [Text.foldEq_trans (Text.foldEq_symm matches_p) matches_q] at differ
    cases differ

end Recipe

namespace Settings

variable {σ σ' : Settings} {src : Value}

/-! ## Scalars -/

/-- Conversion into a scalar does not depend on the settings. -/
theorem result?_scalar_zero (σ σ' : Settings) (src : Value) (k : ScalarKind) :
    σ.result? src (Ty.scalar k).zero = σ'.result? src (Ty.scalar k).zero := by
  have notNil : (Ty.scalar k).zero ≠ .nil := by simp [Ty.zero]
  induction src using Value.heightInduction with
  | step src ih =>
    rw [σ.result?_eq notNil, σ'.result?_eq notNil, start_zero, start_zero]
    cases found : chosen src (Ty.scalar k).zero with
    | some action =>
      rcases exact_or_byShape found with ⟨_, _, rfl, _, rfl⟩ | ⟨_, _, _, other, _⟩ |
        ⟨_, _, rfl, _, rfl⟩ | ⟨_, _, rfl, _, rfl⟩ | shaped
      · simp only [coerce]
      · cases other
      · simp only [bytesToText]
      · simp only [runesToText]
      · simp [Ty.zero, Value.shape, byShape] at shaped
    | none =>
      cases src with
      | pointer pointee target =>
        simp only [follow]
        exact ih target (Value.height_lt_of_mem_parts (List.mem_singleton_self target))
      | nilPointer pointee =>
        simp only [follow]
        exact ih pointee.zero (Nat.lt_succ_of_le (Ty.height_zero_le pointee))
      | _ => simp only [follow, Ty.zero, done?]

/-- The names of a source do not depend on the settings. -/
theorem Names.congr {v : Value} {named : Fields} (h : σ.Names v named) : σ'.Names v named := by
  cases v with
  | map key value entries =>
    have text := fun key => result?_scalar_zero σ σ' key .string
    refine List.Forall₂.imp ?_ h
    rintro e n ⟨key, converted, same⟩
    exact ⟨key, (text e.1).symm.trans converted, same⟩
  | _ => exact h

/-! ## Containers -/

/-- The results from zero values are the same under both settings. -/
def Agree (σ σ' : Settings) (src : Value) : Prop :=
  ∀ t : Ty, σ.result? src t.zero = σ'.result? src t.zero

variable {dst' : Value} (live : src.elem.isPointer = false) (apart : src.NamesApart)
  (inner : ∀ c : Value, c.height < src.height → c.NamesApart → Agree σ σ' c)
include apart inner

theorem agree_part {c : Value} (hc : c ∈ src.elem.parts) : Agree σ σ' c :=
  inner c (Value.height_lt_of_mem_parts_elem hc) (apart.elem.part hc)

include live

theorem result?_map_of_agree {key value : Ty}
    (done : σ.result? src (Ty.map key value).zero = some dst') :
    σ'.result? src (Ty.map key value).zero = some dst' := by
  have kept (σ : Settings) := σ.start_zero (.map key value)
  rw [Ty.zero] at kept done ⊢
  rw [result?_map_eq_some live (kept _)] at done ⊢
  refine done.imp_right ?_
  rintro ⟨pairs, converted, hpairs, each, rfl⟩
  have agree : ∀ p ∈ pairs, Agree σ σ' p.1 ∧ Agree σ σ' p.2 := by
    intro p hp
    obtain ⟨hkey, hvalue⟩ := Value.mem_parts_of_mem_pairs? hpairs hp
    refine ⟨?_, agree_part apart inner hvalue⟩
    rcases hkey with part | ⟨s, text⟩
    · exact agree_part apart inner part
    · have lower := Value.height_lt_of_mem_parts_elem hvalue
      rw [text]
      exact inner (.string s) (Nat.zero_lt_of_lt lower) (Value.namesApart_scalar _)
  refine ⟨pairs, converted, hpairs, ?_, rfl⟩
  refine ((List.forall₂_and_left ..).2 ⟨agree, each⟩).imp ?_
  rintro p q ⟨⟨keys, values⟩, hkey, hvalue⟩
  exact ⟨(keys key).symm.trans hkey, (values value).symm.trans hvalue⟩

/-- Each field is given one value at most, and so is converted from zero. -/
theorem result?_struct_of_agree (skip : σ.skipUnknownFields = σ'.skipUnknownFields)
    {name : String} {types : List (String × Ty)}
    (done : σ.result? src (Ty.struct name types).zero = some dst') :
    σ'.result? src (Ty.struct name types).zero = some dst' := by
  have kept (σ : Settings) := σ.start_zero (.struct name types)
  rw [Ty.zero] at kept done ⊢
  rw [result?_struct_eq_some live (kept _)] at done ⊢
  refine done.imp_right ?_
  rintro ⟨named, fields, hnamed, assigned, rfl⟩
  refine ⟨named, fields, hnamed.congr, ?_, rfl⟩
  rw [assignAll_eq_done] at assigned ⊢
  obtain ⟨known, names, slots⟩ := assigned
  refine ⟨skip ▸ known, names, fun i f g hf hg => ?_⟩
  have slot := slots i f g hf hg
  rcases valuesFor_apart (apart.elem.here.names hnamed.congr) i with none | ⟨p, hp, one⟩
  · rw [none, convertAll_nil] at slot ⊢
    exact slot
  · rw [one, convertAll_singleton_eq_done, nested_eq_done] at slot ⊢
    rw [Ty.zeroFields_eq_map, List.getElem?_map, Option.map_eq_some_iff] at hf
    obtain ⟨u, -, rfl⟩ := hf
    exact (agree_part apart inner (hnamed.mem_parts hp) u.2).symm.trans slot

theorem result?_seq_of_agree {item : Ty} {length : Option Nat}
    (done : σ.result? src (Ty.seq item length).zero = some dst') :
    σ'.result? src (Ty.seq item length).zero = some dst' := by
  obtain ⟨old, zero, fresh, -⟩ := exists_zero_seq item length
  have kept (σ : Settings) := σ.start_zero (.seq item length)
  rw [zero] at kept done ⊢
  rw [result?_seq_eq_some live (kept _)] at done ⊢
  refine done.imp_right ?_
  rintro ⟨t, n, source, items, elem, filled, rfl⟩
  refine ⟨t, n, source, items, elem, ?_, rfl⟩
  have refill : ∀ {filled}, fillItems σ.nested item old source = .done filled →
      fillItems σ'.nested item old source = .done filled := by
    intro items filled
    rw [fillItems_fresh fresh] at filled ⊢
    have agree : ∀ s ∈ source, Agree σ σ' s := fun s hs =>
      agree_part apart inner (elem ▸ hs : s ∈ src.elem.parts)
    refine ((List.forall₂_and_left ..).2 ⟨agree, filled⟩).imp ?_
    rintro s v ⟨same, converted⟩
    rw [nested_eq_done] at converted ⊢
    exact (same item).symm.trans converted
  rw [fillSequence_eq_done] at filled ⊢
  cases length with
  | none => exact refill filled
  | some n =>
    obtain ⟨fits, front, filled, padded⟩ := filled
    exact ⟨fits, front, refill filled, padded⟩

end Settings

/-! ## Whole conversions -/

namespace Settings

variable {σ σ' : Settings} (skip : σ.skipUnknownFields = σ'.skipUnknownFields) {src : Value}
include skip

theorem agree_of_not_pointer (plain : src.isPointer = false) (apart : src.NamesApart)
    (inner : ∀ c : Value, c.height < src.height → c.NamesApart → Agree σ σ' c) :
    Agree σ σ' src := by
  have elem : src.elem = src := by
    cases src <;> first | rfl | simp [Value.isPointer] at plain
  have live : src.elem.isPointer = false := by rw [elem, plain]
  have inner' : ∀ c : Value, c.height < src.height → c.NamesApart → Agree σ' σ c :=
    fun c lower apart t => (inner c lower apart t).symm
  intro t
  induction t using Ty.partsInduction with
  | step t ih =>
    cases t with
    | any => rw [Ty.zero, result?_nil, result?_nil]
    | scalar k => exact result?_scalar_zero σ σ' src k
    | map key value =>
      exact Option.ext fun dst' => ⟨result?_map_of_agree live apart inner,
        result?_map_of_agree live apart inner'⟩
    | struct name types =>
      exact Option.ext fun dst' => ⟨result?_struct_of_agree live apart inner skip,
        result?_struct_of_agree live apart inner' skip.symm⟩
    | seq item length =>
      exact Option.ext fun dst' => ⟨result?_seq_of_agree live apart inner,
        result?_seq_of_agree live apart inner'⟩
    | pointer pointee =>
      have target := ih pointee (List.mem_singleton_self pointee)
      rw [Ty.zero, result?_nilPointer_right _ _ live, result?_nilPointer_right _ _ live, elem,
        target]

/-- **From a zero value the merge mode makes no difference**, if the names of the source are
apart. -/
theorem agree_of_namesApart (apart : src.NamesApart) : Agree σ σ' src := by
  induction src using Value.heightInduction with
  | step src ih =>
    intro t
    by_cases untyped : t.zero = .nil
    · rw [untyped, result?_nil, result?_nil]
    · rw [← σ.result?_elem src untyped, ← σ'.result?_elem src untyped]
      have elemApart : src.elem.NamesApart := Value.Everywhere.elem apart
      have lower : ∀ c : Value, c.height < src.elem.height → c.NamesApart → Agree σ σ' c :=
        fun c below => ih c (Nat.lt_of_lt_of_le below (Value.height_elem_le src))
      cases elem : src.elem with
      | pointer pointee target => exact absurd elem (Value.elem_ne_pointer src pointee target)
      | nilPointer pointee =>
        rw [elem] at lower elemApart
        cases shaped : byShape .nil t.zero.shape with
        | some action =>
          have found (σ : Settings) :
              chosen (.nilPointer pointee) (σ.start t.zero) = some action := by
            rw [start_zero, chosen_nilPointer_left, shaped]
          rw [σ.result?_of_chosen untyped (found σ), σ'.result?_of_chosen untyped (found σ'),
            start_zero, start_zero]
          obtain rfl := byShape_nil_left shaped
          simp only [nilToZero]
        | none =>
          have notShaped (σ : Settings) : byShape .nil (σ.start t.zero).shape = none := by
            rw [start_zero, shaped]
          rw [σ.result?_nilPointer_left untyped (notShaped σ),
            σ'.result?_nilPointer_left untyped (notShaped σ')]
          exact lower pointee.zero (Nat.lt_succ_of_le (Ty.height_zero_le pointee))
            (elemApart.here.pointee rfl).zero t
      | _ =>
        rw [elem] at lower elemApart
        exact agree_of_not_pointer skip rfl elemApart lower t

end Settings

/-- **Replacement is conversion into a fresh destination.** If the names of the source are apart, it
has the result that merging into the zero value of the destination's type has, and it fails when
that fails, and only then. -/
theorem Converter.Standard.replace_fresh {c : Converter} {options : CallOptions}
    (h : c.Standard options) {src : Value} (apart : src.NamesApart) (dst : Value) :
    let replaced := c.convertWith { options with mergeMode := some .replace } src dst
    let fresh := c.convertWith { options with mergeMode := some .intoExisting } src dst.type.zero
    (∀ dst', replaced = .done dst' ↔ fresh = .done dst') ∧
      ((∃ error slot, replaced = .failed error slot) ↔
        ∃ error slot, fresh = .failed error slot) := by
  intro replaced fresh
  have standard : ∀ mode, c.Standard { options with mergeMode := some mode } :=
    fun _ => ⟨h.recipes, h.callRecipes⟩
  let replacing := c.settingsOf { options with mergeMode := some .replace }
  let merging := c.settingsOf { options with mergeMode := some .intoExisting }
  have skip : replacing.skipUnknownFields = merging.skipUnknownFields := rfl
  have agree : Settings.Agree replacing merging src := Settings.agree_of_namesApart skip apart
  have same : replaced.done? = fresh.done? := by
    simp only [replaced, fresh, (standard _).convertWith_eq, done?_rollback]
    exact (replacing.result?_reset rfl src dst).symm.trans (agree dst.type)
  refine ⟨fun dst' => ?_, ?_⟩
  · rw [← done?_eq_some, same, done?_eq_some]
  · rw [← done?_eq_none ((standard _).convertWith_ends src dst), same,
      done?_eq_none ((standard _).convertWith_ends src dst.type.zero)]

/-- What the old struct holds is forgotten at each level. The nil pointer gives its struct anew. -/
theorem Converter.Standard.replace_fresh_nested :
    let owner : Ty := .struct "Owner" [("name", .string)]
    let src : Value := .map .string .any
      [(.string "limits", .struct "Limits" [("max", .int .int 9)]),
        (.string "owner", .nilPointer owner)]
    let job (name person : String) (low high : Int) : Value := .struct "Job"
      [("Name", .string name), ("Owner", .struct "Owner" [("Name", .string person)]),
        ("Limits", .struct "Limits" [("Min", .int .int low), ("Max", .int .int high)])]
    src.NamesApart ∧
      ({} : Converter).convertWith { mergeMode := some .replace } src (job "old" "me" 1 5) =
        .done (job "" "" 0 9) := by
  intro owner src job
  have key : ∀ s, Settings.result? {} (.string s) (.string "") = some (.string s) := by
    intro s
    rfl
  have text : Ty.string.NamesApart := .intro (by simp) (by simp [Ty.parts])
  have ownerApart : owner.NamesApart := by
    refine .intro (fun {name fields} same => ?_) (List.forall_mem_singleton.2 text)
    obtain ⟨rfl, rfl⟩ := Ty.struct.inj same
    exact List.pairwise_singleton _ _
  have apart : src.NamesApart := by
    refine everywhere_map.2 ⟨⟨fun {named} names => ?_, by simp⟩, ?_⟩
    · simp only [Settings.Names, List.forall₂_cons_left_iff, List.forall₂_nil_left_iff, key,
        Option.some.injEq, exists_eq_left', nameOf] at names
      obtain ⟨_, _, rfl, ⟨_, _, rfl, rfl, rfl⟩, rfl⟩ := names
      have differ : Text.foldEq "limits" "owner" = false := by decide
      simpa [Fields.Apart] using differ
    · have scalar := Value.namesApart_scalar
      refine List.forall_mem_cons.2 ⟨⟨scalar _, everywhere_struct.2 ⟨⟨?_, by simp⟩, ?_⟩⟩, ?_⟩
      · rintro _ rfl
        exact List.pairwise_singleton _ _
      · exact List.forall_mem_singleton.2 (scalar _)
      · refine List.forall_mem_singleton.2 ⟨scalar _, everywhere_nilPointer.2 ⟨?_, ?_⟩⟩
        · exact fun {named} none => none.elim
        · rintro _ same
          cases same
          exact ownerApart
  have fresh : ({} : Converter).convertWith { mergeMode := some .intoExisting } src
      (job "old" "me" 1 5).type.zero = .done (job "" "" 0 9) := by rfl
  have standard : ({} : Converter).Standard {} := ⟨rfl, rfl⟩
  have replaced := standard.replace_fresh apart (job "old" "me" 1 5)
  exact ⟨apart, (replaced.1 _).2 fresh⟩

end Recast
