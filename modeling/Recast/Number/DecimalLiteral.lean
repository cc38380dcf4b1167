import Recast.Number.Binary
import Recast.Number.IntegerLiteral

/-!
Decimal literals of floating-point numbers: an optional sign, then the name of an infinity or NaN in
any case, or digits with an optional point and an optional exponent. At least one digit stands
beside the point. The result is the nearest number of the wanted type.
-/

namespace Recast

namespace DecimalLiteral

/-- `± digits · 10 ^ exponent`, or a special number. -/
inductive Literal where
  | nan
  | infinite
  | decimal (digits : List Nat) (exponent : Int)

def digitVal? (c : Char) : Option Nat := IntegerLiteral.digit? 10 c

def isDigit (c : Char) : Bool := (digitVal? c).isSome

/-- The digits at the front, and what follows them. -/
def spanDigits (cs : List Char) : List Nat × List Char :=
  ((cs.takeWhile isDigit).filterMap digitVal?, cs.dropWhile isDigit)

/-- The exponent that ends a literal; nothing stands for zero. -/
def exponent? : List Char → Option Int
  | [] => some 0
  | e :: cs =>
    if e = 'e' ∨ e = 'E' then
      let (negative, cs) := IntegerLiteral.splitSign cs
      match spanDigits cs with
      | (d :: ds, []) =>
        let n : Int := IntegerLiteral.ofDigits 10 (d :: ds)
        some (if negative then -n else n)
      | _ => none
    else none

def number? (cs : List Char) : Option Literal :=
  let (whole, rest) := spanDigits cs
  let (fraction, rest) := match rest with
    | '.' :: rest => spanDigits rest
    | _ => ([], rest)
  if whole.isEmpty && fraction.isEmpty then none
  else (exponent? rest).map fun e => .decimal (whole ++ fraction) (e - fraction.length)

def unsigned? (cs : List Char) : Option Literal :=
  match String.ofList (cs.map Char.toLower) with
  | "nan" => some .nan
  | "inf" | "infinity" => some .infinite
  | _ => number? cs

/-- The nearest number. Beyond `10 ^ ±400` the power is not computed: such a literal is past every
range. -/
def roundDecimal (k : FloatKind) (negative : Bool) (digits : List Nat) (exponent : Int) : k.Word :=
  let digits := digits.dropWhile (· == 0)
  let size := digits.length + exponent
  if digits.isEmpty || size < -400 then k.pack negative 0
  else if 400 < size then k.pack negative k.infinity
  else
    k.round negative (IntegerLiteral.ofDigits 10 digits * Nat.pow 10 exponent.toNat)
      (Nat.pow 10 (-exponent).toNat)

def Literal.round (k : FloatKind) (negative : Bool) : Literal → k.Word
  | .nan => k.nan
  | .infinite => k.pack negative k.infinity
  | .decimal digits exponent => roundDecimal k negative digits exponent

def parse (k : FloatKind) (text : String) : Except LiteralError k.Word :=
  let (negative, cs) := IntegerLiteral.splitSign text.toList
  match unsigned? cs with
  | some literal => .ok (literal.round k negative)
  | none => .error (.malformed text)

end DecimalLiteral

end Recast
