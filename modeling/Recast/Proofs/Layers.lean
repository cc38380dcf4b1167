import Recast.Conversion.Converter
import Recast.Recipe.Actions

/-!
The options of a call are layers of a converter. Recipes are functions of the settings and of the
conversion of nested values (`Scope`); a text that describes the context for diagnostics is not
among what they are given. So two contexts with the same settings that find the same recipes convert
alike at every level (`Context.Alike.convert`), whatever the recipes do with the conversions nested
in them. A call with options is therefore a call without them to the converter that has the recipes
and settings of the call laid over its own.
-/

namespace Recast

namespace Context

/-- The contexts have the same settings and find the same recipes. -/
structure Alike (ctx ctx' : Context) : Prop where
  settings : ctx.settings = ctx'.settings
  recipe? : ∀ src dst, ctx.recipe? src dst = ctx'.recipe? src dst

namespace Alike

variable {ctx ctx' : Context} (h : ctx.Alike ctx')
include h

theorem start (dst : Value) : ctx.start dst = ctx'.start dst := by
  simp only [Context.start, h.settings]

/-- The induction is on the budget: what a recipe is given is the conversion one level deeper, and
that is the same function in both contexts. -/
theorem convert (budget : Nat) : ctx.convert budget = ctx'.convert budget := by
  induction budget with
  | zero =>
    funext src dst
    rfl
  | succ budget ih =>
    funext src dst
    simp only [Context.convert, h.start, h.recipe?, h.settings, ih]

theorem run (src dst : Value) : ctx.run src dst = ctx'.run src dst := by
  simp only [Context.run, h.convert]

end Alike

end Context

namespace Converter

/-- The recipes of a call in front of those of the converter, and the settings of the call where it
has any. -/
def layered (c : Converter) (options : CallOptions) : Converter where
  recipes := options.recipes ++ c.recipes
  settings :=
    { skipUnknownFields := options.skipUnknownFields.getD c.settings.skipUnknownFields
      mergeMode := options.mergeMode.getD c.settings.mergeMode }

/-- Recipes of the call, then those of the converter, then the standard ones. -/
theorem recipe?_context (c : Converter) (options : CallOptions) (src dst : Value) :
    (c.context options).recipe? src dst =
      (Recipe.find? options.recipes src.side dst.side).or
        ((Recipe.find? c.recipes src.side dst.side).or
          (Recipe.find? Recipe.standard src.side dst.side)) := by
  simp only [Context.recipe?, context, registry, Recipe.find?_append]

theorem context_alike_layered (c : Converter) (options : CallOptions) :
    (c.context options).Alike ((c.layered options).context {}) where
  settings := rfl
  recipe? src dst := by
    have noRecipe : Recipe.find? [] src.side dst.side = none := rfl
    rw [recipe?_context, recipe?_context, layered, Recipe.find?_append, noRecipe, Option.none_or,
      Option.or_assoc]

/-- **A call with options is a call to the layered converter**, for recipes that do anything they
can with the conversions nested in them. The outcomes are the same for the whole and for the
conversions at every level below it, where the recipes of the call come before those of the
converter and these before the standard ones. -/
theorem convertWith_layered (c : Converter) (options : CallOptions) :
    (∀ src dst, c.convertWith options src dst = (c.layered options).convert src dst) ∧
      (∀ budget src dst, (c.context options).convert budget src dst =
        ((c.layered options).context {}).convert budget src dst) ∧
      ∀ src dst, (c.context options).recipe? src dst =
        (Recipe.find? options.recipes src.side dst.side).or
          ((Recipe.find? c.recipes src.side dst.side).or
            (Recipe.find? Recipe.standard src.side dst.side)) := by
  have alike := c.context_alike_layered options
  refine ⟨fun src dst => ?_, fun budget src dst => ?_, c.recipe?_context options⟩
  · rw [convert, convertWith, convertWith, alike.run]
  · rw [alike.convert]

/-- Both recipes are for texts, such as the key that is converted to a name. That of the call is
preferred there too. -/
example :
    let recipe (v : Value) : Recipe := ⟨.ofType .string, .ofType .string, Recipe.assign v⟩
    let c : Converter := { recipes := [recipe (.string "converter")] }
    let src : Value := .map .string .any [(.string "name", .string "source")]
    let dst : Value := .struct "User" [("Name", .string "")]
    c.convert src dst = .failed (.failed (.map .string .any) dst.type
        (.conversion (.unknownField "converter" "User"))) dst ∧
      c.convertWith { recipes := [recipe (.string "Name")] } src dst =
        .done (.struct "User" [("Name", .string "Name")]) :=
  ⟨rfl, rfl⟩

end Converter

end Recast
