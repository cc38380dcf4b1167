import Recast.Proofs.Uniformity

/-!
Converting twice is converting once. `Settings.absorbs` says that a second conversion, if it
succeeds, changes nothing. That it succeeds is seen from the type alone, by `Settings.uniform`.
-/

namespace Recast

open Outcome Recipe

namespace Settings

variable {σ : Settings} (hm : σ.mergeMode = .intoExisting)
include hm

/-- **A result is converted to itself** by the source that it came from. -/
theorem result?_twice {src dst dst₁ : Value} {t : Ty} (live : src.Live) (h : dst.Fits t)
    (once : σ.result? src dst = some dst₁) : σ.result? src dst₁ = some dst₁ := by
  have h₁ := σ.result?_fits h once
  obtain ⟨dst₂, twice⟩ := uniform hm t src dst dst₁ dst₁ live h h₁ once
  have sourceLive : ∀ m ∈ [some src], Merge.Live m := by
    intro m hm s hs
    cases List.mem_singleton.1 hm
    cases hs
    exact live
  have same : dst₂ = dst₁ := by
    apply absorbs hm t [some src] dst dst₁ dst₂ sourceLive h
    · rwa [mergeAll_singleton]
    · rwa [mergeAll_singleton]
  rw [twice, same]

end Settings

/-- **Converting twice is converting once**, for a destination without untyped positions and a
source without nil pointers, when merging into what exists. -/
theorem Converter.Standard.convert_twice {c : Converter} {options : CallOptions}
    (h : c.Standard options) (hm : (c.settingsOf options).mergeMode = .intoExisting)
    {src dst dst₁ : Value} (live : src.Live) (typed : dst.WellTyped) (free : dst.type.AnyFree)
    (once : c.convertWith options src dst = .done dst₁) :
    c.convertWith options src dst₁ = .done dst₁ := by
  rw [h.result?_eq_some] at once ⊢
  exact Settings.result?_twice hm live ⟨free, typed.here, typed⟩ once

/-- Two fields of the source are merged into one. -/
theorem Converter.Standard.convert_twice_merged :
    let src : Value := .struct "Update"
      [("Span", .struct "Half" [("low", .int .int 1)]),
        ("span", .struct "Half" [("HIGH", .int .int 9)])]
    let dst₁ : Value := .struct "Row"
      [("SPAN", .struct "Span" [("Low", .int .int 1), ("High", .int .int 9)])]
    ({} : Converter).convertWith {} src dst₁ = .done dst₁ := by
  intro src dst₁
  have standard : ({} : Converter).Standard {} := ⟨rfl, rfl⟩
  have live : src.Live := by simp [src, Value.Live]
  have scalar : ∀ k, (Ty.scalar k).AnyFree := fun k => .intro (by simp) (by simp [Ty.parts])
  have span : (Value.struct "Span" [("Low", .int .int 1), ("High", .int .int 9)]).type.AnyFree := by
    refine .intro (by simp [Value.type]) fun u hu => ?_
    simp only [Value.type, Value.typeFields, Ty.parts, List.map_cons, List.map_nil, List.mem_cons,
      List.not_mem_nil, or_false] at hu
    rcases hu with rfl | rfl
    · exact scalar _
    · exact scalar _
  have free : dst₁.type.AnyFree := by
    refine .intro (by simp [dst₁, Value.type]) fun u hu => ?_
    rw [List.mem_singleton.1 hu]
    exact span
  have once : ({} : Converter).convertWith {} src dst₁.type.zero = .done dst₁ := by rfl
  exact standard.convert_twice rfl live (Value.wellTyped_zero _) (by rwa [Ty.type_zero]) once

end Recast
