import Recast.Recipe.Basic

/-!
The action that fills a sequence, item by item into the items that are there.
-/

namespace Recast.Recipe

/-- Converts each source item into the old item of the same index, or into a zero value beyond them.
The result holds the converted items. A failure leaves the old ones, nil in place of each that was
taken up. -/
def fillItems (nested : Value → Value → Outcome Cause Value) (item : Ty) :
    (old source : List Value) → Outcome Cause (List Value)
  | _, [] => .done []
  | [], v :: vs =>
    (nested v item.zero).useFor [] fun slot =>
      match fillItems nested item [] vs with
      | .done slots => .done (slot :: slots)
      | .failed cause _ => .failed cause []
      | .exhausted => .exhausted
  | old :: olds, v :: vs =>
    (nested v old).useFor (.nil :: olds) fun slot =>
      match fillItems nested item olds vs with
      | .done slots => .done (slot :: slots)
      | .failed cause left => .failed cause (.nil :: left)
      | .exhausted => .exhausted

/-- Zero values up to a length. -/
def padTo (n : Nat) (zero : Value) (items : List Value) : List Value :=
  items ++ List.replicate (n - items.length) zero

/-- The items of a sequence after it has been filled from `source`. A slice takes on the length of
the source. An array keeps its length and the old items past the source's end. -/
def fillSequence (nested : Value → Value → Outcome Cause Value) (item : Ty) (length : Option Nat)
    (old source : List Value) : Outcome Cause (List Value) :=
  match length with
  | none => fillItems nested item old source
  | some n =>
    if n < source.length then .failed (.tooMany source.length n item) old
    else match fillItems nested item old source with
      | .done items => .done (padTo n item.zero (items ++ (old.drop source.length).take n))
      | o => o

def sequenceToSequence : Action := fun scope src dst =>
  match src.elem with
  | .seq _ _ source =>
    dst.writeElem fun
      | .seq item length old =>
        (fillSequence scope.nested item length old source).map (.seq item length)
      | v => .failed (.wrongTarget .sequence) v
  | _ => .failed (.wrongSource "sequence" src.type) dst

end Recast.Recipe
