import Recast.Proofs.Identity
import Recast.Proofs.Typing

/-!
Detours through untyped containers. A container without types takes what is put into it as it is: a
struct becomes its fields under their names, a map its entries and a sequence its items. So nothing
is missing on the way back, where a faithful value is put together again from zero values of its
declared types (`Converter.Standard.convert_detour`).
-/

namespace Recast

open Outcome Recipe

namespace Settings

variable (σ : Settings)

/-! ## Containers that take what they are given -/

/-- An empty map takes on pairs that its types leave as they are. -/
theorem result?_map_of_kept {src : Value} {key value : Ty} {pairs : Entries}
    (given : src.elem.pairs? = some pairs) (distinct : pairs.Distinct)
    (keys : ∀ p ∈ pairs, σ.result? p.1 key.zero = some p.1)
    (values : ∀ p ∈ pairs, σ.result? p.2 value.zero = some p.2) :
    σ.result? src (.map key value []) = some (.map key value pairs) := by
  have each : List.Forall₂ (fun p q => σ.result? p.1 key.zero = some q.1 ∧
      σ.result? p.2 value.zero = some q.2) pairs pairs :=
    List.forall₂_same.2 fun p hp => ⟨keys p hp, values p hp⟩
  have filled := result?_zero_map given each
  rwa [Entries.collect_of_distinct distinct] at filled

/-- A zero sequence takes on items that its type leaves as they are. -/
theorem result?_seq_of_kept {t item : Ty} {n length : Option Nat} {items : List Value}
    (count : ∀ n, length = some n → items.length = n)
    (each : ∀ v ∈ items, σ.result? v item.zero = some v) :
    σ.result? (.seq t n items) (Ty.seq item length).zero = some (.seq item length items) :=
  result?_zero_seq rfl count (List.forall₂_same.2 each)

/-- A text key that a map of texts keeps. -/
theorem result?_textKey (s : String) : σ.result? (.string s) (Ty.zero .string) = some (.string s) :=
  σ.result?_scalar_of_coerce rfl

end Settings

/-! ## Structs as maps -/

/-- The fields of a struct as a map lists them, from the last to the first. -/
def Fields.listed (fields : Fields) : Entries :=
  fields.reverse.map fun f => (.string f.1, f.2)

namespace Fields

theorem listed_perm (fields : Fields) :
    fields.listed.Perm (fields.map fun f => (.string f.1, f.2)) :=
  (List.reverse_perm fields).map _

theorem Apart.listed_distinct {fields : Fields} (h : fields.Apart) : fields.listed.Distinct := by
  have apart : Entries.Distinct (fields.map fun f => (.string f.1, f.2)) := by
    rw [Entries.Distinct, List.pairwise_map]
    refine h.imp fun {f g} apart => ?_
    rw [Value.beq_string, beq_eq_false_iff_ne]
    intro same
    rw [same, Text.foldEq_refl] at apart
    cases apart
  exact apart.perm fields.listed_perm

end Fields

namespace Settings

variable (σ : Settings)

/-- The names that a listed struct gives are those of its fields. -/
theorem names_listed (fields : Fields) :
    σ.Names (.map .string .any fields.listed) fields.reverse := by
  rw [Names, Fields.listed, List.forall₂_map_left_iff, List.forall₂_same]
  exact fun f _ => ⟨.string f.1, σ.result?_textKey f.1, rfl⟩

/-- The fields find their names again, in whatever order they come. -/
theorem result?_listed {name : String} {fields : Fields} (apart : fields.Apart)
    (each : ∀ f ∈ fields, σ.result? f.2 f.2.type.zero = some f.2) :
    σ.result? (.map .string .any fields.listed) (Value.struct name fields).type.zero =
      some (.struct name fields) := by
  have kept := σ.start_zero (Value.struct name fields).type
  rw [Value.zero_type_struct] at kept ⊢
  refine result?_struct_of_perm rfl kept (σ.names_listed fields) (List.reverse_perm fields) apart
    ?_ ?_ fun i f g s hf hg hs => ?_
  · simp [Function.comp_def]
  · simp [Function.comp_def]
  · obtain rfl := Option.some.inj (hg.symm.trans hs)
    rw [List.getElem?_map, hg, Option.map_some, Option.some.injEq] at hf
    rw [← hf]
    exact each g (List.mem_of_getElem? hg)

/-! ## There and back -/

variable {σ}

theorem struct_detour {name : String} {fields : Fields} (h : (Value.struct name fields).Faithful) :
    σ.result? (.struct name fields) (.map .string .any []) =
        some (.map .string .any fields.listed) ∧
      σ.result? (.map .string .any fields.listed) (Value.struct name fields).type.zero =
        some (.struct name fields) := by
  have apart := h.here.names rfl
  constructor
  · have untyped : ∀ v, σ.result? v (Ty.zero .any) = some v := σ.result?_nil
    refine σ.result?_map_of_kept rfl apart.listed_distinct (fun p hp => ?_) fun p _ => untyped p.2
    obtain ⟨f, -, rfl⟩ := List.mem_map.1 hp
    exact σ.result?_textKey f.1
  · refine σ.result?_listed apart fun f hf => ?_
    have field : f.2.Faithful := h.part (List.mem_map_of_mem hf)
    exact σ.result?_zero field field.here.conforms

theorem seq_detour {item : Ty} {length : Option Nat} {items : List Value}
    (h : (Value.seq item length items).Faithful) :
    σ.result? (.seq item length items) (.seq .any none []) = some (.seq .any none items) ∧
      σ.result? (.seq .any none items) (Value.seq item length items).type.zero =
        some (.seq item length items) := by
  have typed : (Value.seq item length items).WellTyped := h.mono fun _ node => node.conforms
  obtain ⟨count, each⟩ := Value.wellTyped_seq.1 typed
  have forth : σ.result? (.seq item length items) (Ty.slice .any).zero =
      some (.seq .any none items) := σ.result?_seq_of_kept (by simp) fun v _ => σ.result?_nil v
  refine ⟨forth, ?_⟩
  rw [Value.type]
  exact σ.result?_seq_of_kept count fun v hv => σ.result?_zero (h.part hv) (each v hv).1

theorem map_detour {key value : Ty} {entries : Entries}
    (h : (Value.map key value entries).Faithful) :
    σ.result? (.map key value entries) (.map .any .any []) = some (.map .any .any entries) ∧
      σ.result? (.map .any .any entries) (Value.map key value entries).type.zero =
        some (.map key value entries) := by
  have untyped : ∀ v, σ.result? v (Ty.zero .any) = some v := σ.result?_nil
  have distinct := h.here.keys rfl
  have typed : (Value.map key value entries).WellTyped := h.mono fun _ node => node.conforms
  obtain ⟨-, parts⟩ := everywhere_map.1 h
  refine ⟨σ.result?_map_of_kept rfl distinct (fun p _ => untyped p.1) fun p _ => untyped p.2, ?_⟩
  rw [Value.type, Ty.zero]
  refine σ.result?_map_of_kept rfl distinct (fun p hp => ?_) fun p hp => ?_
  · exact σ.result?_zero (parts p hp).1 (Value.wellTyped_map.1 typed p hp).1.1
  · exact σ.result?_zero (parts p hp).2 (Value.wellTyped_map.1 typed p hp).2.1

end Settings

namespace Converter.Standard

/-- **Nothing is lost on a detour through untyped containers.** A faithful struct becomes a map with
one entry for each field, a sequence becomes a slice of the same items, and a map of whatever types
one of the same entries. From there each comes back into the zero value of its type. -/
theorem convert_detour {c : Converter} {options : CallOptions} (h : c.Standard options) :
    (∀ name fields, (Value.struct name fields).Faithful → ∃ entries : Entries,
      c.convertWith options (.struct name fields) (.map .string .any []) =
          .done (.map .string .any entries) ∧
        entries.Perm (fields.map fun f => (.string f.1, f.2)) ∧ entries.Distinct ∧
        c.convertWith options (.map .string .any entries) (Value.struct name fields).type.zero =
          .done (.struct name fields)) ∧
    (∀ item length items, (Value.seq item length items).Faithful →
      c.convertWith options (.seq item length items) (.seq .any none []) =
          .done (.seq .any none items) ∧
        c.convertWith options (.seq .any none items) (Value.seq item length items).type.zero =
          .done (.seq item length items)) ∧
    ∀ key value entries, (Value.map key value entries).Faithful →
      c.convertWith options (.map key value entries) (.map .any .any []) =
          .done (.map .any .any entries) ∧
        c.convertWith options (.map .any .any entries) (Value.map key value entries).type.zero =
          .done (.map key value entries) := by
  simp only [h.result?_eq_some]
  refine ⟨fun name fields faithful => ?_, fun _ _ _ => Settings.seq_detour,
    fun _ _ _ => Settings.map_detour⟩
  obtain ⟨forth, back⟩ := Settings.struct_detour faithful
  have distinct := (faithful.here.names rfl).listed_distinct
  exact ⟨Fields.listed fields, forth, Fields.listed_perm fields, distinct, back⟩

/-- A struct with a slice and a map in it, and both of these for themselves. -/
theorem convert_detour_host :
    let aliases : Value := .seq .string none [.string "alpha", .string "beta"]
    let ports : Value := .map (.scalar (.int .uint8)) (.pointer .string)
      [(.int .uint8 80, .pointer .string (.string "http"))]
    let host : Value := .struct "Host" [("Aliases", aliases), ("Ports", ports)]
    (∃ entries : Entries,
      ({} : Converter).convertWith {} host (.map .string .any []) =
          .done (.map .string .any entries) ∧
        entries.Perm [(.string "Aliases", aliases), (.string "Ports", ports)] ∧
        entries.Distinct ∧
        ({} : Converter).convertWith {} (.map .string .any entries) host.type.zero = .done host) ∧
      (({} : Converter).convertWith {} aliases (.seq .any none []) =
          .done (.seq .any none [.string "alpha", .string "beta"]) ∧
        ({} : Converter).convertWith {} (.seq .any none [.string "alpha", .string "beta"])
          aliases.type.zero = .done aliases) ∧
      (({} : Converter).convertWith {} ports (.map .any .any []) =
          .done (.map .any .any [(.int .uint8 80, .pointer .string (.string "http"))]) ∧
        ({} : Converter).convertWith {}
          (.map .any .any [(.int .uint8 80, .pointer .string (.string "http"))])
          ports.type.zero = .done ports) := by
  intro aliases ports host
  have standard : ({} : Converter).Standard {} := ⟨rfl, rfl⟩
  have scalar : ∀ s : Scalar, s.isNaN = false → (Value.scalar s).Faithful := by
    intro s number
    exact everywhere_scalar.2 ⟨.scalar s, by simp, number, by simp, by simp, by simp⟩
  have text : (Value.pointer .string (.string "http")).Faithful := by
    refine everywhere_pointer.2 ⟨⟨.pointer (.scalar _), by simp, rfl, by simp, by simp, ?_⟩, ?_⟩
    · simp
    · exact scalar _ rfl
  have slice : aliases.Faithful := by
    refine everywhere_seq.2 ⟨⟨?_, by simp, rfl, by simp, by simp, by simp⟩, ?_⟩
    · exact .seq (by simp) (by simpa using ⟨.scalar _, .scalar _⟩)
    · exact List.forall_mem_cons.2 ⟨scalar _ rfl, List.forall_mem_singleton.2 (scalar _ rfl)⟩
  have map : ports.Faithful := by
    refine everywhere_map.2 ⟨⟨?_, by simp, rfl, ?_, by simp, by simp⟩, ?_⟩
    · exact .map (by simpa using .scalar _) (by simpa using .pointer (.scalar _))
    · intro key value entries same
      cases same
      exact List.pairwise_singleton _ _
    · exact List.forall_mem_singleton.2 ⟨scalar _ rfl, text⟩
  have struct : host.Faithful := by
    refine everywhere_struct.2 ⟨⟨?_, by simp, rfl, by simp, ?_, by simp⟩, ?_⟩
    · refine .struct rfl (List.forall_mem_cons.2 ⟨slice.here.conforms, ?_⟩)
      exact List.forall_mem_singleton.2 map.here.conforms
    · intro name fields same
      cases same
      have apart : Text.foldEq "Aliases" "Ports" = false := by decide +kernel
      simpa [Fields.Apart] using apart
    · exact List.forall_mem_cons.2 ⟨slice, List.forall_mem_singleton.2 map⟩
  have ⟨structs, seqs, maps⟩ := convert_detour standard
  exact ⟨structs _ _ struct, seqs _ _ _ slice, maps _ _ _ map⟩

end Converter.Standard

end Recast
