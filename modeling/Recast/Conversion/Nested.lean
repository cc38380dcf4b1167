import Recast.Recipe.Basic

/-!
The conversion of one value into another. A recipe that accepts both sides decides; where none does,
a pointer is followed, on the source side first. Conversions nest, and each level spends one unit of
a budget. `budget` is one that conversions by the standard recipes never spend.
-/

namespace Recast

/-- Everything that a conversion and those nested in it share. -/
structure Context where
  /-- Recipes of this call, tried before all others. -/
  callRecipes : List Recipe
  recipes : List Recipe
  settings : Settings

namespace Context

def recipe? (ctx : Context) (src dst : Value) : Option Recipe :=
  (Recipe.find? ctx.callRecipes src.side dst.side).or (Recipe.find? ctx.recipes src.side dst.side)

/-- What a conversion starts from when the destination holds `dst`. -/
def start (ctx : Context) (dst : Value) : Value :=
  match ctx.settings.mergeMode with
  | .intoExisting => dst
  | .replace => dst.reset

/-- Converts within a budget. A nil destination takes the source as it is. A pointer that leads
nowhere stands for the zero value of its type, which a destination then keeps. -/
def convert (ctx : Context) : (budget : Nat) → (src dst : Value) → Outcome ConversionError Value
  | 0, _, _ => .exhausted
  | budget + 1, src, dst =>
    if dst.isNil then .done src
    else
      let dst := ctx.start dst
      match ctx.recipe? src dst with
      | some recipe =>
        (recipe.action ⟨ctx.settings, ctx.convert budget⟩ src dst).mapError
          (.failed src.type dst.type)
      | none =>
        match src, dst with
        | .pointer _ target, dst => ctx.convert budget target dst
        | .nilPointer pointee, dst => ctx.convert budget pointee.zero dst
        | src, .pointer pointee target => (ctx.convert budget src target).map (.pointer pointee)
        | src, .nilPointer pointee =>
          (ctx.convert budget src pointee.zero).map (.pointer pointee)
        | src, dst => .failed (.noRecipe src.type dst.type) dst

end Context

mutual

/-- The levels of a type. -/
def Ty.height : Ty → Nat
  | .any | .scalar _ => 0
  | .map key value => max key.height value.height + 1
  | .struct _ fields => heightFields fields + 1
  | .seq item _ => item.height + 1
  | .pointer pointee => pointee.height + 1

def Ty.heightFields : List (String × Ty) → Nat
  | [] => 0
  | (_, t) :: fields => max t.height (heightFields fields)

end

namespace Value

mutual

/-- The levels of a value and of the types it declares. -/
def height : Value → Nat
  | .nil | .scalar _ => 0
  | .map key value entries => max (max key.height value.height) (heightEntries entries) + 1
  | .struct _ fields => heightFields fields + 1
  | .seq item _ items => max item.height (heightItems items) + 1
  | .pointer pointee target => max pointee.height target.height + 1
  | .nilPointer pointee => pointee.height + 1

def heightEntries : Entries → Nat
  | [] => 0
  | (k, v) :: entries => max (max k.height v.height) (heightEntries entries)

def heightFields : Fields → Nat
  | [] => 0
  | (_, v) :: fields => max v.height (heightFields fields)

def heightItems : List Value → Nat
  | [] => 0
  | v :: items => max v.height (heightItems items)

end

end Value

/-- A nested conversion has a lower source, or the same one and a shorter way of pointers ahead. -/
def budget (src dst : Value) : Nat := (src.height + 1) * (max src.height dst.height + 1) + 1

/-- Levels granted beyond that, for recipes that nest conversions in ways of their own. -/
def extraBudget : Nat := 10000

namespace Context

def run (ctx : Context) (src dst : Value) : Outcome ConversionError Value :=
  ctx.convert (budget src dst + extraBudget) src dst

end Context

end Recast
