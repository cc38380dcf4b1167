import Recast.Conversion.Error
import Recast.Conversion.Outcome

/-!
Recipes. A recipe names the sources and destinations it is for, by exact type or by shape, and an
action that writes the destination. The action may call the conversion it is part of.
-/

namespace Recast

inductive MergeMode where
  /-- Convert into what the destination holds. -/
  | intoExisting
  /-- Start every level from the zero value of its type. -/
  | replace
  deriving DecidableEq

def MergeMode.name : MergeMode → String
  | .intoExisting => "into_existing"
  | .replace => "replace"

structure Settings where
  /-- Drop names without a field in the destination instead of failing. -/
  skipUnknownFields : Bool := false
  mergeMode : MergeMode := .intoExisting
  deriving DecidableEq

/-- What an action works with: the settings of the call and the conversion of nested values. What a
context would print of itself for diagnostics is no part of this, so that an action is a function of
these two and of the values. -/
structure Scope where
  settings : Settings
  convert : Value → Value → Outcome ConversionError Value

/-- A nested conversion whose failure is the action's own. -/
def Scope.nested (scope : Scope) (src dst : Value) : Outcome Cause Value :=
  (scope.convert src dst).mapError .conversion

/-- Writes the destination, given as second value, from the source. -/
abbrev Action := Scope → Value → Value → Outcome Cause Value

/-- One side of a conversion as recipes see it. -/
structure Side where
  type : Ty
  shape : Shape

def Value.side (v : Value) : Side := ⟨v.type, v.shape⟩

inductive Matcher where
  | ofType (t : Ty)
  | ofShape (s : Shape)
  deriving DecidableEq

namespace Matcher

def accepts (side : Side) : Matcher → Bool
  | .ofType t => t == side.type
  | .ofShape s => s == side.shape

def text : Matcher → String
  | .ofType t => t.text
  | .ofShape s => "<" ++ s.name ++ ">"

end Matcher

structure Recipe where
  source : Matcher
  target : Matcher
  action : Action

namespace Recipe

def accepts (recipe : Recipe) (src dst : Side) : Bool :=
  recipe.source.accepts src && recipe.target.accepts dst

def text (recipe : Recipe) : String := recipe.source.text ++ " -> " ++ recipe.target.text

/-- The first recipe that accepts both sides. -/
def find? (recipes : List Recipe) (src dst : Side) : Option Recipe :=
  recipes.find? (·.accepts src dst)

theorem find?_append (front back : List Recipe) (src dst : Side) :
    find? (front ++ back) src dst = (find? front src dst).or (find? back src dst) :=
  List.find?_append

end Recipe

end Recast
