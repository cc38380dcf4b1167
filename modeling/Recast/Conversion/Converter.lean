import Recast.Conversion.Nested
import Recast.Recipe.Maps
import Recast.Recipe.Scalars
import Recast.Recipe.Sequences
import Recast.Recipe.Structs
import Recast.Value.Text

/-!
Converters, the standard recipes that each of them has, in the order in which they are tried, and
calls. A call that fails leaves its destination as it was.
-/

namespace Recast

namespace Recipe

def scalars : List Recipe :=
  ScalarKind.all.flatMap fun source => ScalarKind.all.map fun target =>
    ⟨.ofType (.scalar source), .ofType (.scalar target), coerce⟩

def texts : List Recipe :=
  [⟨.ofType .string, .ofType (.slice (.scalar (.int .uint8))), textToBytes⟩,
    ⟨.ofType (.slice (.scalar (.int .uint8))), .ofType .string, bytesToText⟩,
    ⟨.ofType (.slice (.scalar (.int .int32))), .ofType .string, runesToText⟩]

def containers : List Recipe :=
  [⟨.ofShape .nil, .ofShape .map, nilToZero⟩,
    ⟨.ofShape .nil, .ofShape .struct, nilToZero⟩,
    ⟨.ofShape .map, .ofShape .map, mapToMap⟩,
    ⟨.ofShape .struct, .ofShape .map, structToMap⟩,
    ⟨.ofShape .map, .ofShape .struct, mapToStruct⟩,
    ⟨.ofShape .struct, .ofShape .struct, structToStruct⟩,
    ⟨.ofShape .sequence, .ofShape .sequence, sequenceToSequence⟩]

def standard : List Recipe := scalars ++ texts ++ containers

end Recipe

/-- Recipes that take precedence over the standard ones, and settings. -/
structure Converter where
  recipes : List Recipe := []
  settings : Settings := {}

/-- What one call changes. Its recipes come before those of the converter. -/
structure CallOptions where
  skipUnknownFields : Option Bool := none
  mergeMode : Option MergeMode := none
  recipes : List Recipe := []

namespace Converter

/-- All recipes, in the order in which they are tried. -/
def registry (c : Converter) : List Recipe := c.recipes ++ Recipe.standard

def context (c : Converter) (options : CallOptions) : Context where
  callRecipes := options.recipes
  recipes := c.registry
  settings :=
    { skipUnknownFields := options.skipUnknownFields.getD c.settings.skipUnknownFields
      mergeMode := options.mergeMode.getD c.settings.mergeMode }

def convertWith (c : Converter) (options : CallOptions) (src dst : Value) :
    Outcome ConversionError Value :=
  ((c.context options).run src dst).rollback dst

def convert (c : Converter) (src dst : Value) : Outcome ConversionError Value :=
  c.convertWith {} src dst

/-- Converts into what a live pointer leads to. -/
def convertIntoPointer (c : Converter) (src : Value) : Value → Outcome ConversionError Value
  | .pointer pointee target => (c.convert src target).map (.pointer pointee)
  | dst => .failed (.notWritable dst.type) dst

end Converter

/-- The report of a conversion that had to succeed and did not. -/
def ConversionError.report (error : ConversionError) (src dst : Value) : String :=
  s!"unable to convert {src.text} into {dst.type.text}: {error.message}"

end Recast
