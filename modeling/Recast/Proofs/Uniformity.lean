import Recast.Proofs.Coordinates

/-!
Success depends on the type of the destination, not on what it holds. Merging runs nested
conversions into what is there, and what is there differs: a pointer is allocated or followed, an
entry is found or starts from zero, an item is old or new. Where no position of the type is untyped,
the two runs meet slots of the same types all the same (`Settings.uniform`).
-/

namespace Recast

open Outcome Recipe

theorem exists_forall₂_of_imp {α β γ : Type} {R : α → β → Prop} {S : α → γ → Prop} {xs : List α}
    {ys : List β} (h : List.Forall₂ R xs ys) (hS : ∀ x ∈ xs, ∀ y, R x y → ∃ z, S x z) :
    ∃ zs, List.Forall₂ S xs zs := by
  induction h with
  | nil => exact ⟨[], .nil⟩
  | @cons x y xs ys head tail ih =>
    obtain ⟨z, hz⟩ := hS x List.mem_cons_self y head
    obtain ⟨zs, hzs⟩ := ih fun x' hx' => hS x' (List.mem_cons_of_mem x hx')
    exact ⟨z :: zs, .cons hz hzs⟩

namespace Settings

variable {σ : Settings}

/-- Whether a source can be converted into a slot of the type depends on the type alone. -/
def Uniform (σ : Settings) (t : Ty) : Prop :=
  ∀ (src x y x' : Value), src.Live → x.Fits t → y.Fits t → σ.result? src x = some x' →
    ∃ y', σ.result? src y = some y'

theorem Uniform.convertAll {t : Ty} (h : σ.Uniform t) {vs : List Value} {x y x' : Value}
    (live : ∀ v ∈ vs, v.Live) (hx : x.Fits t) (hy : y.Fits t)
    (done : Recipe.convertAll σ.nested x vs = .done x') :
    ∃ y', Recipe.convertAll σ.nested y vs = .done y' := by
  induction vs generalizing x y with
  | nil => exact ⟨y, rfl⟩
  | cons v vs ih =>
    obtain ⟨headLive, tailLive⟩ := List.forall_mem_cons.1 live
    obtain ⟨mid, first, rest⟩ := convertAll_cons_eq_done.1 done
    rw [nested_eq_done] at first
    obtain ⟨mid', first'⟩ := h v x y mid headLive hx hy first
    obtain ⟨y', rest'⟩ := ih tailLive (σ.result?_fits hx first) (σ.result?_fits hy first') rest
    exact ⟨y', convertAll_cons_eq_done.2 ⟨mid', σ.nested_eq_done.2 first', rest'⟩⟩

variable (hm : σ.mergeMode = .intoExisting)
include hm

theorem Uniform.map {key value : Ty} (h : σ.Uniform value) : σ.Uniform (.map key value) := by
  intro src x y x' live hx hy done
  obtain ⟨old, rfl, -⟩ := hx.exists_map
  obtain ⟨old', rfl, -⟩ := hy.exists_map
  have kept := σ.start_of_intoExisting hm
  simp only [result?_map_eq_some live.elem_isPointer (kept _)] at done ⊢
  rcases done with ⟨elem, -⟩ | ⟨pairs, converted, hpairs, each, -⟩
  · exact ⟨_, Or.inl ⟨elem, rfl⟩⟩
  · obtain ⟨converted', each'⟩ : ∃ converted' : Entries,
        List.Forall₂ (fun p q => σ.result? p.1 key.zero = some q.1 ∧
          σ.result? p.2 ((old'.get? q.1).getD value.zero) = some q.2) pairs converted' := by
      apply exists_forall₂_of_imp each
      rintro p hp q ⟨hkey, hvalue⟩
      have valueLive := live_of_mem_pairs? live hpairs hp
      obtain ⟨w, hw⟩ := h p.2 _ _ _ valueLive (entry_fits hx) (entry_fits hy) hvalue
      exact ⟨(q.1, w), hkey, hw⟩
    exact ⟨_, Or.inr ⟨pairs, converted', hpairs, each', rfl⟩⟩

theorem Uniform.struct {name : String} {types : List (String × Ty)}
    (h : ∀ u ∈ types, σ.Uniform u.2) : σ.Uniform (.struct name types) := by
  intro src x y x' live hx hy done
  obtain ⟨fields, rfl, names, fits⟩ := hx.exists_struct
  obtain ⟨slots, rfl, names', fits'⟩ := hy.exists_struct
  have kept := σ.start_of_intoExisting hm
  have sameNames : fields.map (·.1) = slots.map (·.1) := names.trans names'.symm
  simp only [result?_struct_eq_some live.elem_isPointer (kept _)] at done ⊢
  rcases done with ⟨elem, -⟩ | ⟨pairs, fields', hpairs, assigned, -⟩
  · exact ⟨_, Or.inl ⟨elem, rfl⟩⟩
  · obtain ⟨known, keptNames, each⟩ := assignAll_eq_done.1 assigned
    have count : fields'.length = fields.length := by simpa using congrArg List.length keptNames
    have count' : slots.length = fields.length := by
      simpa using (congrArg List.length sameNames).symm
    have countTypes : types.length = fields.length := by
      simpa using (congrArg List.length names).symm
    have again : ∀ (i : Nat) f, slots[i]? = some f → ∃ w,
        Recipe.convertAll σ.nested f.2 (valuesFor (slots.map (·.1)) pairs i) = .done w := by
      intro i f hf
      have inside := (List.getElem?_eq_some_iff.1 hf).1
      have at_i : fields[i]? = some fields[i] := List.getElem?_eq_getElem (by omega)
      have at_i' : fields'[i]? = some fields'[i] := List.getElem?_eq_getElem (by omega)
      have at_type : types[i]? = some types[i] := List.getElem?_eq_getElem (by omega)
      have valuesLive : ∀ v ∈ valuesFor (fields.map (·.1)) pairs i, v.Live := by
        intro v hv
        obtain ⟨p, hp, rfl⟩ := List.mem_map.1 hv
        rw [hpairs.eq_named] at hp
        exact live_of_mem_named live (List.mem_filter.1 hp).1
      rw [← sameNames]
      exact (h types[i] (List.getElem_mem _)).convertAll valuesLive
        (fits i _ _ at_i at_type) (fits' i _ _ hf at_type) (each i _ _ at_i at_i')
    rw [sameNames] at known
    obtain ⟨slots', assigned'⟩ := exists_assignAll known again
    exact ⟨_, Or.inr ⟨pairs, slots', hpairs, assigned', rfl⟩⟩

theorem Uniform.seq {item : Ty} {length : Option Nat} (h : σ.Uniform item) :
    σ.Uniform (.seq item length) := by
  intro src x y x' live hx hy done
  obtain ⟨old, rfl, -⟩ := hx.exists_seq
  obtain ⟨old', rfl, -⟩ := hy.exists_seq
  have kept := σ.start_of_intoExisting hm
  simp only [result?_seq_eq_some live.elem_isPointer (kept _)] at done ⊢
  rcases done with ⟨s, elem, hitem, hlength, -⟩ | ⟨u, n, source, items, elem, filled, -⟩
  · exact ⟨_, Or.inl ⟨s, elem, hitem, hlength, rfl⟩⟩
  · have given : itemsOf src = source := by rw [itemsOf, elem]
    have refill : ∀ items, fillItems σ.nested item old source = .done items →
        ∃ items', fillItems σ.nested item old' source = .done items' := by
      intro items filled
      obtain ⟨count, each⟩ := fillItems_eq_done.1 filled
      apply exists_fillItems
      intro i v hv
      have inside := (List.getElem?_eq_some_iff.1 hv).1
      have at_i : items[i]? = some items[i] := List.getElem?_eq_getElem (by omega)
      have itemLive : v.Live :=
        live_of_mem_itemsOf live (by rw [given]; exact List.mem_of_getElem? hv)
      have first := σ.nested_eq_done.1 (each i v _ hv at_i)
      obtain ⟨w, hw⟩ := h v _ _ _ itemLive (item_fits hx i) (item_fits hy i) first
      exact ⟨w, σ.nested_eq_done.2 hw⟩
    rw [fillSequence_eq_done] at filled
    cases length with
    | none =>
      obtain ⟨items', filled'⟩ := refill items filled
      exact ⟨_, Or.inr ⟨u, n, source, items', elem, fillSequence_eq_done.2 filled', rfl⟩⟩
    | some k =>
      obtain ⟨fits, front, filled, -⟩ := filled
      obtain ⟨front', filled'⟩ := refill front filled
      have again : fillSequence σ.nested item (some k) old' source =
          .done (padTo k item.zero (front' ++ (old'.drop source.length).take k)) :=
        fillSequence_eq_done.2 ⟨fits, front', filled', rfl⟩
      exact ⟨_, Or.inr ⟨u, n, source, _, elem, again, rfl⟩⟩

theorem Uniform.scalar (k : ScalarKind) : σ.Uniform (.scalar k) := by
  intro src x y x' live hx hy done
  obtain ⟨s, rfl, hs⟩ := hx.exists_scalar
  obtain ⟨s', rfl, hs'⟩ := hy.exists_scalar
  have kept := σ.start_of_intoExisting hm
  refine ⟨x', ?_⟩
  rwa [← result?_scalar_congr live.elem_isPointer (hs.trans hs'.symm) (kept _) (kept _)]

theorem Uniform.pointer {t : Ty} (h : σ.Uniform t) : σ.Uniform (.pointer t) := by
  intro src x y x' live hx hy done
  rw [result?_pointee hm live hx] at done
  obtain ⟨target, inner, -⟩ := Option.map_eq_some_iff.1 done
  obtain ⟨target', inner'⟩ := h src _ _ _ live hx.pointee hy.pointee inner
  rw [result?_pointee hm live hy, inner']
  exact ⟨_, rfl⟩

theorem uniform (t : Ty) : σ.Uniform t := by
  induction t using Ty.partsInduction with
  | step t ih =>
    cases t with
    | any =>
      intro src x y x' _ hx
      exact absurd rfl hx.admitted.here
    | scalar k => exact Uniform.scalar hm k
    | map key value => exact Uniform.map hm (ih value (by simp [Ty.parts]))
    | struct name types =>
      exact Uniform.struct hm fun u hu => ih u.2 (List.mem_map_of_mem hu)
    | seq item length => exact Uniform.seq hm (ih item (List.mem_singleton_self item))
    | pointer t => exact Uniform.pointer hm (ih t (List.mem_singleton_self t))

end Settings

namespace Converter.Standard

variable {c : Converter} {options : CallOptions}

/-- **Success depends on the type of the destination alone**, when merging into what exists and
where the type has no untyped position. Whatever two well-typed destinations of such a type hold, a
source without nil pointers is converted into both of them or into neither. -/
theorem convert_uniform (h : c.Standard options)
    (hm : (c.settingsOf options).mergeMode = .intoExisting) {src dst dst' : Value} (live : src.Live)
    (typed : dst.WellTyped) (typed' : dst'.WellTyped) (same : dst.type = dst'.type)
    (free : dst.type.AnyFree) :
    (∃ slot, c.convertWith options src dst = .done slot) ↔
      ∃ slot, c.convertWith options src dst' = .done slot := by
  have fits : dst.Fits dst.type := ⟨free, typed.here, typed⟩
  have fits' : dst'.Fits dst.type := ⟨free, same ▸ typed'.here, typed'⟩
  simp only [h.result?_eq_some]
  constructor
  · rintro ⟨slot, done⟩
    exact Settings.uniform hm dst.type src dst dst' slot live fits fits' done
  · rintro ⟨slot, done⟩
    exact Settings.uniform hm dst.type src dst' dst slot live fits' fits done

/-- A full row and a bare one. In the full one the new port is merged into the old port behind its
pointer, in the bare one the pointer is allocated. -/
theorem convert_uniform_row :
    let number : Ty := .scalar (.int .int)
    let row (ports : Entries) (owner : Value) (tags : List Value) : Value := .struct "Row"
      [("Ports", .map .string (.pointer number) ports), ("Owner", owner),
        ("Tags", .seq .string none tags)]
    let full := row [(.string "http", .pointer number (.int .int 8080))]
      (.pointer .string (.string "me")) [.string "a", .string "b"]
    let bare := row [] (.nilPointer .string) []
    let src : Value := .map .string .any
      [(.string "ports", .struct "Ports" [("http", .string "80"), ("ssh", .int .int 22)]),
        (.string "owner", .string "you"), (.string "tags", .seq .any none [.int .int 1])]
    full.WellTyped ∧ bare.WellTyped ∧ full.type = bare.type ∧ full.type.AnyFree ∧
      ((∃ slot, ({} : Converter).convertWith {} src full = .done slot) ↔
        ∃ slot, ({} : Converter).convertWith {} src bare = .done slot) := by
  intro number row full bare src
  have standard : ({} : Converter).Standard {} := ⟨rfl, rfl⟩
  have live : src.Live := by simp [src, Value.Live]
  have typed : full.WellTyped := by
    simp [full, row, number, Value.wellTyped_struct, Value.wellTyped_map, Value.wellTyped_seq,
      Value.wellTyped_pointer, Value.wellTyped_scalar, Value.conforms_scalar_iff,
      Value.conforms_pointer_iff, Scalar.kind]
  have typed' : bare.WellTyped := Value.wellTyped_zero bare.type
  have free : full.type.AnyFree := by
    simp [full, row, number, Value.type, Value.typeFields, Ty.AnyFree]
  have same : full.type = bare.type := rfl
  exact ⟨typed, typed', same, free, standard.convert_uniform rfl live typed typed' same free⟩

end Converter.Standard

end Recast
