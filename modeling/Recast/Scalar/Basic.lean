import Recast.Number.Decimal

/-!
Scalars: booleans, integers, floating-point numbers and texts, each of a definite type.
-/

namespace Recast

inductive ScalarKind where
  | bool
  | int (k : IntKind)
  | float (k : FloatKind)
  | string
  deriving DecidableEq

inductive Scalar where
  | bool (b : Bool)
  | int (k : IntKind) (word : k.Word)
  | float (k : FloatKind) (word : k.Word)
  | string (s : String)
  deriving DecidableEq

namespace ScalarKind

/-- Every scalar type, integers first. -/
def all : List ScalarKind :=
  [.int .int, .int .int8, .int .int16, .int .int32, .int .int64,
    .int .uint, .int .uint8, .int .uint16, .int .uint32, .int .uint64,
    .float .float32, .float .float64, .bool, .string]

theorem mem_all (k : ScalarKind) : k ∈ all := by
  rcases k with _ | k | k | _
  · decide
  · cases k <;> decide
  · cases k <;> decide
  · decide

def name : ScalarKind → String
  | .bool => "bool"
  | .int k => k.name
  | .float k => k.name
  | .string => "string"

def zero : ScalarKind → Scalar
  | .bool => .bool false
  | .int k => .int k (k.wrap 0)
  | .float k => .float k k.zero
  | .string => .string ""

end ScalarKind

namespace Scalar

def kind : Scalar → ScalarKind
  | .bool _ => .bool
  | .int k _ => .int k
  | .float k _ => .float k
  | .string _ => .string

/-- Equality within one type. Floating-point numbers are compared as numbers, so that NaN differs
from itself and the two zeros agree. -/
def same : Scalar → Scalar → Bool
  | .bool a, .bool b => a == b
  | .int k a, .int l b => k == l && k.value a == l.value b
  | .float k a, .float l b => if h : k = l then l.same (h ▸ a) b else false
  | .string s, .string t => s == t
  | _, _ => false

def text : Scalar → String
  | .bool b => toString b
  | .int k word => toString (k.value word)
  | .float k word => k.shortest word
  | .string s => s

end Scalar

theorem ScalarKind.kind_zero (k : ScalarKind) : k.zero.kind = k := by cases k <;> rfl

end Recast
