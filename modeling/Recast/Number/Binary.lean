import Recast.Number.Integer

/-!
Binary floating-point numbers as bit patterns. `FloatKind.read` says what a pattern stands for, and
`FloatKind.round` gives the pattern nearest to a quotient, a tie going to the even neighbour. All
arithmetic is exact, on integers.
-/

namespace Recast

/-- What a bit pattern stands for. A finite one is `± significand · 2 ^ exponent`. -/
inductive Reading where
  | nan
  | infinite (negative : Bool)
  | finite (negative : Bool) (significand : Nat) (exponent : Int)
  deriving DecidableEq

inductive FloatKind where
  | float32 | float64
  deriving DecidableEq

/-- The quotient to the nearest integer, a tie to the even one. -/
def roundDiv (num den : Nat) : Nat :=
  let q := num / den
  let r := num % den
  if 2 * r < den then q else if den < 2 * r then q + 1 else q + q % 2

/-- `⌊log₂ (num / den)⌋` for positive arguments. -/
def floorLog2 (num den : Nat) : Int :=
  let e : Int := (num.log2 : Int) - den.log2
  if den <<< e.toNat ≤ num <<< (-e).toNat then e else e - 1

namespace FloatKind

def width : FloatKind → Nat
  | .float32 => 32
  | .float64 => 64

abbrev Word (k : FloatKind) : Type := BitVec k.width

/-- The bits of the stored significand. -/
def fractionBits : FloatKind → Nat
  | .float32 => 23
  | .float64 => 52

/-- The exponent of the smallest positive number. -/
def leastExponent : FloatKind → Int
  | .float32 => -149
  | .float64 => -1074

/-- The pattern of infinity, above all finite ones. -/
def infinity : FloatKind → Nat
  | .float32 => 0x7F800000
  | .float64 => 0x7FF0000000000000

def name : FloatKind → String
  | .float32 => "float32"
  | .float64 => "float64"

/-- The pattern of a sign and an unsigned pattern. -/
def pack (k : FloatKind) (negative : Bool) (magnitude : Nat) : k.Word :=
  .ofNat k.width (magnitude + if negative then 1 <<< (k.width - 1) else 0)

def zero (k : FloatKind) : k.Word := k.pack false 0

def nan (k : FloatKind) : k.Word := k.pack false (k.infinity + (1 <<< (k.fractionBits - 1)))

def read (k : FloatKind) (word : k.Word) : Reading :=
  let negative := word.msb
  let magnitude := word.toNat % (1 <<< (k.width - 1))
  let fraction := magnitude % (1 <<< k.fractionBits)
  let biased := magnitude >>> k.fractionBits
  if k.infinity < magnitude then .nan
  else if magnitude = k.infinity then .infinite negative
  else if biased = 0 then .finite negative fraction k.leastExponent
  else
    .finite negative ((1 <<< k.fractionBits) + fraction) (k.leastExponent + (biased - 1 : Nat))

/-- The number nearest to `± num / den`, or infinity if that lies past the greatest one. -/
def round (k : FloatKind) (negative : Bool) (num den : Nat) : k.Word :=
  if num = 0 then k.pack negative 0
  else
    let exponent := max k.leastExponent (floorLog2 num den - k.fractionBits)
    let significand := roundDiv (num <<< (-exponent).toNat) (den <<< exponent.toNat)
    let magnitude := ((exponent - k.leastExponent).toNat <<< k.fractionBits) + significand
    k.pack negative (min magnitude k.infinity)

def ofReading (k : FloatKind) : Reading → k.Word
  | .nan => k.nan
  | .infinite negative => k.pack negative k.infinity
  | .finite negative significand exponent =>
    k.round negative (significand <<< exponent.toNat) (1 <<< (-exponent).toNat)

/-- A number of one type as the nearest of another. One of the same type is kept. -/
def convert (source target : FloatKind) (word : source.Word) : target.Word :=
  if h : source = target then h ▸ word else target.ofReading (source.read word)

def ofInt (k : FloatKind) (n : Int) : k.Word := k.round (n < 0) n.natAbs 1

/-- Equality of numbers: a zero equals either zero, and NaN equals nothing. -/
def same (k : FloatKind) (a b : k.Word) : Bool :=
  match k.read a, k.read b with
  | .nan, _ | _, .nan => false
  | .finite _ 0 _, .finite _ 0 _ => true
  | _, _ => a == b

end FloatKind

namespace Reading

def isNonzero : Reading → Bool
  | .finite _ significand _ => significand != 0
  | _ => true

/-- The integer part, infinities and NaN apart. -/
def truncate (negative : Bool) (significand : Nat) (exponent : Int) : Int :=
  let n := (significand <<< exponent.toNat) >>> (-exponent).toNat
  if negative then -n else n

end Reading

/-- The integer part if the type holds it, else the nearest number that it holds. NaN gives zero. -/
def IntKind.ofReading (k : IntKind) : Reading → k.Word
  | .nan => k.wrap 0
  | .infinite negative => k.wrap (if negative then k.least else k.greatest)
  | .finite negative significand exponent =>
    k.clamp (Reading.truncate negative significand exponent)

end Recast
