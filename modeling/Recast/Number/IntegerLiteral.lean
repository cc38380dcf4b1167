import Recast.Text.Quoted

/-!
Integer literals. A literal is a base marker (`0x`, `0o`, `0b` in either case, or a single `0` for
octal) with digits of that base, or plain decimal digits. Single underscores may separate digits and
may follow a marker.
-/

namespace Recast

/-- Why a text is not a literal of the wanted type. Both cases carry the whole text. -/
inductive LiteralError where
  | malformed (input : String)
  | outOfRange (input : String)
  deriving DecidableEq

def LiteralError.message : LiteralError → String
  | .malformed input => s!"parsing {Text.quote input}: invalid syntax"
  | .outOfRange input => s!"parsing {Text.quote input}: value out of range"

namespace IntegerLiteral

/-- What a base marker leaves to be read. -/
structure Body where
  radix : Nat
  marked : Bool
  digits : List Char

def Body.ofUnsigned : List Char → Body
  | '0' :: c :: rest =>
    match c with
    | 'x' | 'X' => ⟨16, true, rest⟩
    | 'b' | 'B' => ⟨2, true, rest⟩
    | 'o' | 'O' => ⟨8, true, rest⟩
    | _ => ⟨8, true, c :: rest⟩
  | cs => ⟨10, false, cs⟩

/-- The value of an ASCII digit of the given base. -/
def digit? (radix : Nat) (c : Char) : Option Nat :=
  let n :=
    if '0' ≤ c ∧ c ≤ '9' then c.toNat - '0'.toNat
    else if 'a' ≤ c ∧ c ≤ 'z' then c.toNat - 'a'.toNat + 10
    else if 'A' ≤ c ∧ c ≤ 'Z' then c.toNat - 'A'.toNat + 10
    else radix
  if n < radix then some n else none

def noDoubled : List Char → Bool
  | '_' :: '_' :: _ => false
  | _ :: cs => noDoubled cs
  | [] => true

/-- Underscores stand one at a time, never last, and first only after a marker. -/
def Body.separated (body : Body) : Bool :=
  noDoubled body.digits && body.digits.getLast? != some '_' &&
    (body.marked || body.digits.head? != some '_')

def ofDigits (radix : Nat) (digits : List Nat) : Nat :=
  digits.foldl (fun n digit => n * radix + digit) 0

def Body.value? (body : Body) : Option Nat :=
  if body.separated then
    match (body.digits.filter (· != '_')).mapM (digit? body.radix) with
    | none | some [] => none
    | some digits => some (ofDigits body.radix digits)
  else none

/-- The number that an unsigned literal denotes. -/
def magnitude? (cs : List Char) : Option Nat := (Body.ofUnsigned cs).value?

/-- An optional sign and what follows it. The flag is set for a minus. -/
def splitSign : List Char → Bool × List Char
  | '-' :: cs => (true, cs)
  | '+' :: cs => (false, cs)
  | cs => (false, cs)

/-- A literal with an optional sign, to be held in two's complement by `bits` bits. -/
def parseSigned (bits : Nat) (text : String) : Except LiteralError Int :=
  let (negative, cs) := splitSign text.toList
  match magnitude? cs with
  | none => .error (.malformed text)
  | some m =>
    let n : Int := if negative then -m else m
    let limit : Nat := 1 <<< (bits - 1)
    if -(limit : Int) ≤ n ∧ n < limit then .ok n else .error (.outOfRange text)

/-- A literal without sign, to be held by `bits` bits. -/
def parseUnsigned (bits : Nat) (text : String) : Except LiteralError Nat :=
  match magnitude? text.toList with
  | none => .error (.malformed text)
  | some m => if m < 1 <<< bits then .ok m else .error (.outOfRange text)

end IntegerLiteral

end Recast
