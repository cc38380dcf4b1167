/-!
The ten integer types. An integer is stored as a word of its type's width, and `IntKind.value` reads
the number it stands for. `int` and `uint` are 64 bits wide, yet types of their own.
-/

namespace Recast

inductive IntKind where
  | int | int8 | int16 | int32 | int64
  | uint | uint8 | uint16 | uint32 | uint64
  deriving DecidableEq

namespace IntKind

def width : IntKind → Nat
  | .int8 | .uint8 => 8
  | .int16 | .uint16 => 16
  | .int32 | .uint32 => 32
  | .int | .int64 | .uint | .uint64 => 64

def signed : IntKind → Bool
  | .int | .int8 | .int16 | .int32 | .int64 => true
  | .uint | .uint8 | .uint16 | .uint32 | .uint64 => false

abbrev Word (k : IntKind) : Type := BitVec k.width

/-- The number a word stands for. -/
def value (k : IntKind) (word : k.Word) : Int := if k.signed then word.toInt else word.toNat

/-- The word that agrees with `n` modulo `2 ^ width`. -/
def wrap (k : IntKind) (n : Int) : k.Word := BitVec.ofInt k.width n

def least (k : IntKind) : Int := if k.signed then -(1 <<< (k.width - 1) : Nat) else 0

def greatest (k : IntKind) : Int :=
  (1 <<< (if k.signed then k.width - 1 else k.width) : Nat) - 1

/-- `n` if the type holds it, else the nearest number that it holds. -/
def clamp (k : IntKind) (n : Int) : k.Word := k.wrap (max k.least (min k.greatest n))

def name : IntKind → String
  | .int => "int"
  | .int8 => "int8"
  | .int16 => "int16"
  | .int32 => "int32"
  | .int64 => "int64"
  | .uint => "uint"
  | .uint8 => "uint8"
  | .uint16 => "uint16"
  | .uint32 => "uint32"
  | .uint64 => "uint64"

theorem width_pos (k : IntKind) : 0 < k.width := by cases k <;> decide

/-- A word is told by the number that it stands for. -/
theorem wrap_value (k : IntKind) (word : k.Word) : k.wrap (k.value word) = word := by
  unfold wrap value
  split
  · exact BitVec.ofInt_toInt
  · simp

theorem width_le (k : IntKind) : k.width ≤ 64 := by cases k <;> decide

end IntKind

end Recast
