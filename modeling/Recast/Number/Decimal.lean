import Recast.Number.Binary

/-!
Decimal text of floating-point numbers: `FloatKind.shortest` writes the fewest digits that read back
as the same number, and `FloatKind.sixPlaces` writes six decimals of the exact value.
-/

namespace Recast

/-- `digits · 10 ^ exponent`. -/
structure Decimal where
  digits : Nat
  exponent : Int
  deriving DecidableEq

/-- Positional notation, without an exponent and without a trailing point. -/
def Decimal.text (d : Decimal) : String :=
  let ds := Nat.toDigits 10 d.digits
  let places := (-d.exponent).toNat
  let zeros n := List.replicate n '0'
  String.ofList <|
    if places = 0 then ds ++ zeros d.exponent.toNat
    else if places < ds.length then
      ds.take (ds.length - places) ++ '.' :: ds.drop (ds.length - places)
    else '0' :: '.' :: zeros (places - ds.length) ++ ds

/-- The numbers that round to a given one, as multiples of a common unit `1 / den`: they lie from
`low` to `high`, the ends themselves included if `closed`. -/
structure RoundingInterval where
  low : Nat
  value : Nat
  high : Nat
  den : Nat
  closed : Bool

namespace RoundingInterval

/-- The neighbour below lies half as far off when the significand is the least normalised one. -/
def ofFinite (k : FloatKind) (significand : Nat) (exponent : Int) : RoundingInterval :=
  let below := if significand = 1 <<< k.fractionBits then 1 else 2
  let up := (exponent - 2).toNat
  { low := (4 * significand - below) <<< up
    value := (4 * significand) <<< up
    high := (4 * significand + 2) <<< up
    den := 1 <<< (2 - exponent).toNat
    closed := significand % 2 = 0 }

def holds (i : RoundingInterval) (a b : Nat) : Bool := if i.closed then a ≤ b else a < b

/-- The multiple of `10 ^ grid` in the interval that is nearest to the value, if there is one. Of
two equally near the greater is taken. -/
def onGrid? (i : RoundingInterval) (grid : Int) : Option Decimal :=
  let step := i.den * Nat.pow 10 grid.toNat
  let scale := Nat.pow 10 (-grid).toNat
  let value := i.value * scale
  let digits := value / step
  let down := i.holds (i.low * scale) (digits * step)
  let up := i.holds ((digits + 1) * step) (i.high * scale)
  if up && (!down || step ≤ 2 * (value % step)) then some ⟨digits + 1, grid⟩
  else if down then some ⟨digits, grid⟩
  else none

/-- A power of ten above the value, and at most two decimal places too high. -/
def topGrid (i : RoundingInterval) : Int := (floorLog2 i.value i.den + 1) * 30103 / 100000 + 1

/-- The fewest digits in the interval. No value needs a grid further down than the twentieth. -/
def shortest (i : RoundingInterval) : Decimal :=
  ((List.range 20).findSome? fun (n : Nat) => i.onGrid? (i.topGrid - n)).getD ⟨0, 0⟩

end RoundingInterval

def signText (negative : Bool) : String := if negative then "-" else ""

namespace FloatKind

/-- The fewest digits that read back, in positional notation. -/
def shortest (k : FloatKind) (word : k.Word) : String :=
  match k.read word with
  | .nan => "NaN"
  | .infinite negative => signText negative ++ "inf"
  | .finite negative 0 _ => signText negative ++ "0"
  | .finite negative significand exponent =>
    signText negative ++ (RoundingInterval.ofFinite k significand exponent).shortest.text

/-- Six decimals of the exact value, a tie going to the even digit. -/
def sixPlaces (k : FloatKind) (word : k.Word) : String :=
  match k.read word with
  | .nan => "NaN"
  | .infinite negative => (if negative then "-" else "+") ++ "Inf"
  | .finite negative significand exponent =>
    let millionths :=
      roundDiv ((significand * 1000000) <<< exponent.toNat) (1 <<< (-exponent).toNat)
    let places := Nat.toDigits 10 (millionths % 1000000)
    signText negative ++ toString (millionths / 1000000) ++ "." ++
      String.ofList (List.replicate (6 - places.length) '0' ++ places)

end FloatKind

end Recast
