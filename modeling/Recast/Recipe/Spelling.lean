import Recast.Recipe.Basic
import Recast.Text.Quoted

/-!
Recipes spelled out by structure, for inspection: every type with its constructors, and a struct
with its fields.
-/

namespace Recast

def spelledList (items : List String) : String := "[" ++ ", ".intercalate items ++ "]"

def IntKind.title : IntKind → String
  | .int => "Int"
  | .int8 => "Int8"
  | .int16 => "Int16"
  | .int32 => "Int32"
  | .int64 => "Int64"
  | .uint => "Uint"
  | .uint8 => "Uint8"
  | .uint16 => "Uint16"
  | .uint32 => "Uint32"
  | .uint64 => "Uint64"

def ScalarKind.title : ScalarKind → String
  | .bool => "Bool"
  | .int k => k.title
  | .float .float32 => "Float32"
  | .float .float64 => "Float64"
  | .string => "String"

mutual

def Ty.spelling : Ty → String
  | .any => "Any"
  | .scalar k => k.title
  | .map key value =>
    "Map \x7b key: " ++ key.spelling ++ ", value: " ++ value.spelling ++ " \x7d"
  | .struct name fields =>
    "Struct(StructType \x7b name: " ++ Text.quote name ++ ", fields: " ++
      spelledList (fieldSpellings fields) ++ " \x7d)"
  | .seq item none => "Slice(" ++ item.spelling ++ ")"
  | .seq item (some n) => "Array(" ++ item.spelling ++ ", " ++ toString n ++ ")"
  | .pointer pointee => "Pointer(" ++ pointee.spelling ++ ")"

def Ty.fieldSpellings : List (String × Ty) → List String
  | [] => []
  | (name, t) :: fields =>
    ("(" ++ Text.quote name ++ ", " ++ t.spelling ++ ")") :: fieldSpellings fields

end

def Shape.title : Shape → String
  | .nil => "Nil"
  | .scalar => "Scalar"
  | .map => "Map"
  | .struct => "Struct"
  | .sequence => "Sequence"

def Matcher.spelling : Matcher → String
  | .ofType t => "Exact(" ++ t.spelling ++ ")"
  | .ofShape s => "Shape(" ++ s.title ++ ")"

def Recipe.spelling (recipe : Recipe) : String :=
  "Recipe \x7b from: " ++ recipe.source.spelling ++ ", to: " ++ recipe.target.spelling ++
    ", .. \x7d"

end Recast
