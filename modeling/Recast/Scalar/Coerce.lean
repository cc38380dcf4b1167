import Recast.Number.DecimalLiteral
import Recast.Value.Basic

/-!
Coercion of a scalar to another scalar type. Integers wrap, fractions are cut off and clamped, a
number is true when it is not zero, and texts are read as literals of the wanted type. Only a text
that is no such literal is refused. Values are coerced if they are scalars themselves; pointers are
not followed.
-/

namespace Recast

/-- The literals of a boolean. -/
def parseBool (text : String) : Except LiteralError Bool :=
  if text ∈ ["1", "t", "T", "TRUE", "true", "True"] then .ok true
  else if text ∈ ["0", "f", "F", "FALSE", "false", "False"] then .ok false
  else .error (.malformed text)

/-- A text as an integer of the given type. The empty text is zero. -/
def IntKind.parse (k : IntKind) (text : String) : Except LiteralError k.Word :=
  if text.isEmpty then .ok (k.wrap 0)
  else if k.signed then (IntegerLiteral.parseSigned k.width text).map k.wrap
  else (IntegerLiteral.parseUnsigned k.width text).map fun n => k.wrap n

namespace Scalar

def toBool : Scalar → Except LiteralError Bool
  | .bool b => .ok b
  | .int k word => .ok (k.value word != 0)
  | .float k word => .ok (k.read word).isNonzero
  | .string s => parseBool s

def toInt (target : IntKind) : Scalar → Except LiteralError target.Word
  | .bool b => .ok (target.wrap b.toInt)
  | .int k word => .ok (target.wrap (k.value word))
  | .float k word => .ok (target.ofReading (k.read word))
  | .string s => target.parse s

def toFloat (target : FloatKind) : Scalar → Except LiteralError target.Word
  | .bool b => .ok (target.ofInt b.toInt)
  | .int k word => .ok (target.ofInt (k.value word))
  | .float k word => .ok (k.convert target word)
  | .string s => DecimalLiteral.parse target s

/-- The text that a text destination receives. Floating-point numbers have six decimals here. -/
def toText : Scalar → String
  | .float k word => k.sixPlaces word
  | s => s.text

def coerce (s : Scalar) : ScalarKind → Except LiteralError Scalar
  | .bool => s.toBool.map .bool
  | .int k => (s.toInt k).map (.int k)
  | .float k => (s.toFloat k).map (.float k)
  | .string => .ok (.string s.toText)

/-- A scalar of the wanted type is kept. -/
theorem coerce_self (s : Scalar) : s.coerce s.kind = .ok s := by
  cases s with
  | bool | string => rfl
  | int k word =>
    rw [kind, coerce, toInt, IntKind.wrap_value]
    rfl
  | float k word =>
    rw [kind, coerce, toFloat, FloatKind.convert, dif_pos rfl]
    rfl

end Scalar

inductive ScalarError where
  | literal (error : LiteralError)
  /-- One of the two is no scalar. -/
  | unsupported (source target : Ty)
  deriving DecidableEq

def ScalarError.message : ScalarError → String
  | .literal error => error.message
  | .unsupported source target => s!"cannot coerce {source.text} to {target.text}"

/-- The source as a scalar of the type that the destination has now. -/
def Value.coerce : (src dst : Value) → Except ScalarError Value
  | .scalar s, .scalar d => ((s.coerce d.kind).map .scalar).mapError .literal
  | src, dst => .error (.unsupported src.type dst.type)

end Recast
