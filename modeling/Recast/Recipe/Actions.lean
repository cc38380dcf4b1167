import Recast.Recipe.Scalars
import Recast.Value.Text

/-!
Ready-made actions for recipes of one's own.
-/

namespace Recast.Recipe

def keep : Action := fun _ _ dst => .done dst

def assign (v : Value) : Action := fun _ _ _ => .done v

/-- Assigns what live pointers lead to. -/
def assignElem (v : Value) : Action := fun _ _ dst => .done (dst.mapElem fun _ => v)

def fail (cause : Cause) : Action := fun _ _ dst => .failed cause dst

def assignAndFail (v : Value) (cause : Cause) : Action := fun _ _ _ => .failed cause v

/-- Coerces what pointers lead to on either side. -/
def coerceElem : Action := fun _ src dst =>
  dst.writeElem fun target => .ofExcept target ((src.elem.coerce target).mapError .scalar)

/-- Writes the source, the settings and the old destination down as a text. -/
def describe : Action := fun scope src dst =>
  .done <| .string <|
    s!"{src.text} skip={scope.settings.skipUnknownFields} " ++
      s!"mode={scope.settings.mergeMode.name} was={dst.text}"

/-- Converts by way of another type. -/
def via (t : Ty) : Action := fun scope src dst =>
  (scope.nested src t.zero).useFor dst fun mid => scope.nested mid dst

/-- Makes the source the only item of a sequence. -/
def wrap : Action := fun scope src dst =>
  dst.writeElem fun
    | .seq item length items =>
      (scope.nested src item.zero).useFor (.seq item length items) fun v =>
        .done (.seq item length [v])
    | v => .failed (.wrongTarget .sequence) v

/-- Converts a value into each item, whether that succeeds or not. -/
def tryItems (nested : Value → Value → Outcome Cause Value) (v : Value) :
    List Value → Outcome Cause (List Value)
  | [] => .done []
  | item :: items =>
    match nested v item with
    | .done slot | .failed _ slot => (tryItems nested v items).map (slot :: ·)
    | .exhausted => .exhausted

/-- Converts the source into each item of a sequence. -/
def tryEach : Action := fun scope src dst =>
  dst.writeElem fun
    | .seq item length items => (tryItems scope.nested src items).map (.seq item length)
    | v => .failed (.wrongTarget .sequence) v

/-- How many entries, fields or items a value has, and -1 for one that has no parts. -/
def count : Action := fun _ src _ =>
  .done <| .int .int <|
    match src.elem with
    | .map _ _ entries => entries.length
    | .struct _ fields => fields.length
    | .seq _ _ items => items.length
    | _ => -1

end Recast.Recipe
