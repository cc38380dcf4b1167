import Mathlib.Data.List.Nodup
import Recast.Proofs.Choice
import Recast.Proofs.Layers

/-!
The standard recipes never compete. Some are for exact types and some for shapes, but a type that is
no pointer settles the shape of its values, so that two matchers that clash accept no value in
common (`Matcher.not_accepts_of_clash`). Any two standard recipes clash on one side
(`Recipe.standard_pairwise`). At most one of them accepts a source and a destination, and the order
in which they are tried is of no consequence (`Recipe.standard_exclusive`).
-/

namespace Recast

/-- The shape of all values of a type. Where a pointer leads is not settled by its type. -/
def Ty.shape? : Ty → Option Shape
  | .any => some .nil
  | .scalar _ => some .scalar
  | .map .. => some .map
  | .struct .. => some .struct
  | .seq .. => some .sequence
  | .pointer _ => none

theorem Value.shape_of_type {v : Value} {s : Shape} (h : v.type.shape? = some s) : v.shape = s := by
  cases v with
  | pointer | nilPointer => cases h
  | _ => exact Option.some.inj h

theorem Value.exists_scalar_of_type {v : Value} {k : ScalarKind} (h : v.type = .scalar k) :
    ∃ s, v = .scalar s := by
  cases v with
  | scalar s => exact ⟨s, rfl⟩
  | _ => cases h

namespace Matcher

theorem accepts_ofType {t : Ty} {v : Value} : (ofType t).accepts v.side = true ↔ v.type = t :=
  beq_iff_eq.trans eq_comm

theorem accepts_ofShape {s : Shape} {v : Value} :
    (ofShape s).accepts v.side = true ↔ v.shape = s :=
  beq_iff_eq.trans eq_comm

/-- The matchers have nothing in common, by what they ask for. -/
def clash : Matcher → Matcher → Bool
  | .ofType t, .ofType u => t != u
  | .ofShape s, .ofShape s' => s != s'
  | .ofType t, .ofShape s | .ofShape s, .ofType t => t.shape?.any (· != s)

/-- **No value is accepted by two matchers that clash.** -/
theorem not_accepts_of_clash {m m' : Matcher} (h : m.clash m' = true) (v : Value) :
    ¬(m.accepts v.side = true ∧ m'.accepts v.side = true) := by
  have settled : ∀ s, v.type.shape?.any (· != s) = true → v.shape ≠ s := by
    intro s other
    obtain ⟨s', found, differs⟩ := (Option.any_eq_true _ _).1 other
    rw [Value.shape_of_type found]
    simpa using differs
  rintro ⟨accepted, accepted'⟩
  cases m <;> cases m' <;>
    simp only [clash, accepts_ofType, accepts_ofShape] at h accepted accepted' <;>
    subst accepted
  · simp [accepted'] at h
  · exact settled _ h accepted'
  · subst accepted'
    exact settled _ h rfl
  · simp [accepted'] at h

end Matcher

namespace Recipe

/-- The recipes clash on one side. -/
def clash (r r' : Recipe) : Bool := r.source.clash r'.source || r.target.clash r'.target

theorem not_accepts_of_clash {r r' : Recipe} (h : r.clash r' = true) (src dst : Value) :
    ¬(r.accepts src.side dst.side = true ∧ r'.accepts src.side dst.side = true) := by
  simp only [accepts, Bool.and_eq_true]
  rintro ⟨⟨source, target⟩, source', target'⟩
  rcases Bool.or_eq_true_iff.1 h with h | h
  · exact Matcher.not_accepts_of_clash h src ⟨source, source'⟩
  · exact Matcher.not_accepts_of_clash h dst ⟨target, target'⟩

theorem scalars_pairwise : scalars.Pairwise fun r r' => r.clash r' = true := by
  have distinct : ScalarKind.all.Nodup := by decide
  rw [scalars, List.pairwise_flatMap]
  constructor
  · intro source _
    rw [List.pairwise_map]
    refine distinct.imp fun {target target'} differ => ?_
    simp [clash, Matcher.clash, differ]
  · refine distinct.imp fun {source source'} differ => ?_
    intro r hr r' hr'
    obtain ⟨target, -, rfl⟩ := List.mem_map.1 hr
    obtain ⟨target', -, rfl⟩ := List.mem_map.1 hr'
    simp [clash, Matcher.clash, differ]

/-- **Any two standard recipes clash.** -/
theorem standard_pairwise : standard.Pairwise fun r r' => r.clash r' = true := by
  have others : (texts ++ containers).Pairwise fun r r' => r.clash r' = true := by decide
  rw [standard, List.append_assoc, List.pairwise_append]
  refine ⟨scalars_pairwise, others, fun r hr r' hr' => ?_⟩
  obtain ⟨source, target, rfl⟩ := mem_scalars hr
  -- The others have a side that is no scalar.
  revert r'
  simp [texts, containers, clash, Matcher.clash, Ty.shape?]

/-! ## Which values have a recipe -/

/-- The values that a standard recipe is for. -/
inductive Covers (src dst : Value) : Prop
  | scalars (source : ∃ s, src = .scalar s) (target : ∃ d, dst = .scalar d)
  | types (pair : (src.type, dst.type) ∈
      [(Ty.string, Ty.slice (.scalar (.int .uint8))), (Ty.slice (.scalar (.int .uint8)), Ty.string),
        (Ty.slice (.scalar (.int .int32)), Ty.string)])
  | shapes (pair : (src.shape, dst.shape) ∈
      [(Shape.nil, Shape.map), (.nil, .struct), (.map, .map), (.struct, .map), (.map, .struct),
        (.struct, .struct), (.sequence, .sequence)])

theorem accepts_iff {r : Recipe} {src dst : Value} :
    r.accepts src.side dst.side = true ↔
      r.source.accepts src.side = true ∧ r.target.accepts dst.side = true := Bool.and_eq_true_iff

theorem exists_scalars_iff {src dst : Value} :
    (∃ r ∈ scalars, r.accepts src.side dst.side = true) ↔
      (∃ s, src = .scalar s) ∧ ∃ d, dst = .scalar d := by
  constructor
  · rintro ⟨r, member, accepted⟩
    obtain ⟨source, target, rfl⟩ := mem_scalars member
    obtain ⟨hs, ht⟩ := accepts_iff.1 accepted
    exact ⟨Value.exists_scalar_of_type (Matcher.accepts_ofType.1 hs),
      Value.exists_scalar_of_type (Matcher.accepts_ofType.1 ht)⟩
  · rintro ⟨⟨s, rfl⟩, d, rfl⟩
    exact ⟨_, scalar_mem_scalars s.kind d.kind,
      accepts_iff.2 ⟨Matcher.accepts_ofType.2 rfl, Matcher.accepts_ofType.2 rfl⟩⟩

theorem exists_standard_iff {src dst : Value} :
    (∃ r ∈ standard, r.accepts src.side dst.side = true) ↔ Covers src dst := by
  simp only [standard, List.mem_append, or_and_right, exists_or, exists_scalars_iff]
  constructor
  · rintro ((⟨source, target⟩ | exact) | shape)
    · exact .scalars source target
    · apply Covers.types
      simpa [texts, accepts_iff, Matcher.accepts_ofType] using exact
    · apply Covers.shapes
      simpa [containers, accepts_iff, Matcher.accepts_ofShape] using shape
  · rintro (⟨source, target⟩ | pair | pair)
    · exact .inl (.inl ⟨source, target⟩)
    · refine .inl (.inr ?_)
      simpa [texts, accepts_iff, Matcher.accepts_ofType] using pair
    · refine .inr ?_
      simpa [containers, accepts_iff, Matcher.accepts_ofShape] using pair

/-! ## The order of recipes -/

theorem countP_le_one {recipes : List Recipe}
    (h : recipes.Pairwise fun r r' => r.clash r' = true) (src dst : Value) :
    recipes.countP (·.accepts src.side dst.side) ≤ 1 := by
  have alone : (recipes.filter (·.accepts src.side dst.side)).Pairwise fun _ _ => False :=
    List.pairwise_filter.2 <| h.imp fun clash accepted accepted' =>
      not_accepts_of_clash clash src dst ⟨accepted, accepted'⟩
  rw [List.countP_eq_length_filter]
  generalize recipes.filter (·.accepts src.side dst.side) = accepting at alone
  cases accepting with
  | nil => exact Nat.zero_le 1
  | cons r others =>
    obtain rfl : others = [] := List.eq_nil_iff_forall_not_mem.2 (List.pairwise_cons.1 alone).1
    exact Nat.le_refl 1

/-- Where at most one recipe accepts the two sides, their order is of no consequence. -/
theorem find?_of_perm {recipes recipes' : List Recipe} (perm : recipes.Perm recipes')
    {src dst : Side} (unique : recipes.countP (·.accepts src dst) ≤ 1) :
    find? recipes src dst = find? recipes' src dst := by
  have same := perm.filter (·.accepts src dst)
  rw [find?, find?, ← List.head?_filter, ← List.head?_filter]
  rw [List.countP_eq_length_filter] at unique
  generalize recipes.filter (·.accepts src dst) = accepting at unique same
  cases accepting with
  | nil => rw [same.nil_eq]
  | cons r others =>
    obtain rfl : others = [] := by simpa using unique
    rw [List.singleton_perm.1 same]

end Recipe

/-- The context with its standard recipes in another order. -/
def Converter.reordered (c : Converter) (options : CallOptions) (recipes : List Recipe) : Context :=
  { c.context options with recipes := c.recipes ++ recipes }

theorem Converter.context_alike_reordered (c : Converter) (options : CallOptions)
    {recipes : List Recipe} (perm : recipes.Perm Recipe.standard) :
    (c.reordered options recipes).Alike (c.context options) where
  settings := rfl
  recipe? src dst := by
    have unique : recipes.countP (·.accepts src.side dst.side) ≤ 1 := by
      rw [perm.countP_eq]
      exact Recipe.countP_le_one Recipe.standard_pairwise src dst
    rw [c.recipe?_context, Context.recipe?, reordered, Recipe.find?_append,
      Recipe.find?_of_perm perm unique]
    rfl

/-- **The standard recipes never compete.** At most one of them accepts a source and a destination,
and one does just for two scalars that are no pointers, for the exact types of texts, bytes and code
points, and for the pairs of shapes that are listed. So their order is of no consequence: with the
standard recipes in any other order, behind any recipes of the converter and of the call, every
conversion and every one nested in it at any depth has the same outcome. -/
theorem Recipe.standard_exclusive :
    (∀ src dst : Value,
      standard.countP (·.accepts src.side dst.side) ≤ 1 ∧
        (standard.countP (·.accepts src.side dst.side) = 1 ↔ Covers src dst)) ∧
    ∀ recipes : List Recipe, recipes.Perm standard → ∀ (c : Converter) (options : CallOptions),
      (∀ budget src dst, (c.reordered options recipes).convert budget src dst =
        (c.context options).convert budget src dst) ∧
      ∀ src dst, ((c.reordered options recipes).run src dst).rollback dst =
        c.convertWith options src dst := by
  refine ⟨fun src dst => ?_, fun recipes perm c options => ?_⟩
  · have unique := countP_le_one standard_pairwise src dst
    refine ⟨unique, ?_⟩
    rw [← exists_standard_iff, ← List.countP_pos_iff]
    omega
  · have alike := c.context_alike_reordered options perm
    refine ⟨fun budget src dst => ?_, fun src dst => ?_⟩
    · rw [alike.convert]
    · rw [alike.run, Converter.convertWith]

/-- Standard recipes from the last to the first, behind one that converts into each item: the text
of a name into the bytes of a field. -/
theorem Recipe.standard_exclusive_reversed :
    let c : Converter := { recipes := [⟨.ofShape .map, .ofShape .sequence, tryEach⟩] }
    let file (content : List Value) : Value :=
      .struct "File" [("Content", .seq (.scalar (.int .uint8)) none content)]
    let files (content : List Value) : Value := .seq (file []).type none [file content]
    let src : Value := .map .string .any [(.string "content", .string "hi")]
    standard.reverse.Perm standard ∧
      ((c.reordered {} standard.reverse).run src (files [])).rollback (files []) =
        .done (files [.int .uint8 0x68, .int .uint8 0x69]) := by
  intro c file files src
  have perm : standard.reverse.Perm standard := standard.reverse_perm
  exact ⟨perm, ((standard_exclusive.2 _ perm c {}).2 src (files [])).trans rfl⟩

end Recast
