import Recast.Conversion.Converter
import Recast.Native.Convert
import Recast.Path.Evaluate

/-!
Extraction: the value that a path leads to, converted into a destination. A path that leads nowhere
gives nil. Conversion into a native type goes by way of a fresh value of its type, and its answer is
missing only if the nesting budget was spent.
-/

namespace Recast

inductive ExtractError where
  | path (error : PathError)
  | conversion (error : ConversionError)

def ExtractError.message : ExtractError → String
  | .path error => "Path evaluation failed: " ++ error.message
  | .conversion error => "Conversion failed: " ++ error.message

namespace Converter

def extract (c : Converter) (options : PathOptions) (data : Value) (expression : String)
    (dst : Value) : Outcome ExtractError Value :=
  match data.find? expression options with
  | .error error => .failed (.path error) dst
  | .ok found => (c.convert (found.getD .nil) dst).mapError .conversion

def convertTo (c : Converter) (t : Native) (src : Value) :
    Option (Except ConversionError t.Carrier) :=
  (c.convert src t.type.zero).result?.map (·.bind t.ofValue)

/-- Converts what a path leads to. -/
def extractAs (c : Converter) (t : Native) (data : Value) (expression : String) :
    Option (Except ExtractError t.Carrier) :=
  (c.extract {} data expression t.type.zero).result?.map
    (·.bind fun v => (t.ofValue v).mapError .conversion)

end Converter

end Recast
