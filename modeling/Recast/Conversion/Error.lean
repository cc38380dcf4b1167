import Recast.Scalar.Coerce

/-!
Why a conversion fails. A failure inside a recipe is wrapped together with the types the recipe was
run on, so the error of a nested conversion is a chain that ends in its root cause.
-/

namespace Recast

mutual

inductive ConversionError where
  | noRecipe (source target : Ty)
  /-- A recipe was found, and failed. -/
  | failed (source target : Ty) (cause : Cause)
  | unknownField (field struct : String)
  | notWritable (found : Ty)
  | unexpected (expected found : Ty)

/-- What made a recipe fail. -/
inductive Cause where
  | conversion (error : ConversionError)
  | scalar (error : ScalarError)
  /-- More items than an array holds. -/
  | tooMany (count length : Nat) (item : Ty)
  /-- An item that a text cannot be built from. -/
  | stray (container : String) (found : Ty)
  /-- A recipe was run on a source or a destination that it is not for. -/
  | wrongSource (wanted : String) (found : Ty)
  | wrongTarget (wanted : Shape)
  | message (text : String)

end

mutual

def ConversionError.message : ConversionError → String
  | .noRecipe source target => s!"no recipe to convert {source.text} to {target.text}"
  | .failed source target cause =>
    s!"unable to convert {source.text} to {target.text}: {cause.text}"
  | .unknownField field struct => s!"unknown field `{field}` in struct {struct}"
  | .notWritable found => s!"destination must be a non-nil pointer, found {found.text}"
  | .unexpected expected found => s!"expected a value of type {expected.text}, found {found.text}"

def Cause.text : Cause → String
  | .conversion error => error.message
  | .scalar error => error.message
  | .tooMany count length item => s!"{count} elements do not fit in [{length}]{item.text}"
  | .stray container found => s!"{container} holds {found.text}"
  | .wrongSource wanted found => s!"expected a {wanted}, found {found.text}"
  | .wrongTarget wanted => s!"destination is not a {wanted.name}"
  | .message text => text

end

namespace ConversionError

/-- The innermost conversion error of the chain. -/
def rootCause : ConversionError → ConversionError
  | .failed _ _ (.conversion error) => error.rootCause
  | error => error

/-- How many errors lie below this one. -/
def depth : ConversionError → Nat
  | .failed _ _ (.conversion error) => error.depth + 1
  | .failed .. => 1
  | _ => 0

/-- The scalar error that the chain ends in, if it does. -/
def scalarCause? (error : ConversionError) : Option ScalarError :=
  match error.rootCause with
  | .failed _ _ (.scalar e) => some e
  | _ => none

def isUnknownField (error : ConversionError) : Bool :=
  match error.rootCause with
  | .unknownField .. => true
  | _ => false

end ConversionError

end Recast
