import Recast.Recipe.Basic
import Recast.Text.Utf8

/-!
Actions on scalars and on texts: coercion, the bytes of a text, and texts from bytes or from code
points.
-/

namespace Recast.Recipe

def coerce : Action := fun _ src dst => .ofExcept dst ((src.coerce dst).mapError .scalar)

def textToBytes : Action := fun _ src dst =>
  match src with
  | .scalar (.string s) =>
    .done (.seq (.scalar (.int .uint8)) none
      ((Text.utf8Encode s).map fun byte => .scalar (.int .uint8 byte)))
  | _ => .failed (.wrongSource "string" src.type) dst

def byte : Value → Except Cause Text.Byte
  | .scalar (.int .uint8 byte) => .ok byte
  | v => .error (.stray "byte slice" v.type)

def bytesToText : Action := fun _ src dst =>
  match src with
  | .seq _ _ items =>
    .ofExcept dst <|
      (items.mapM byte).map fun bytes => .string (String.ofList (Text.utf8Decode bytes))
  | _ => .failed (.wrongSource "byte slice" src.type) dst

/-- The character of a code point. What is none becomes U+FFFD. -/
def charOfCode (n : Nat) : Char := if n.isValidChar then Char.ofNat n else Text.replacement

def rune : Value → Except Cause Char
  | .scalar (.int .int32 word) => .ok (charOfCode word.toNat)
  | v => .error (.stray "rune slice" v.type)

def runesToText : Action := fun _ src dst =>
  match src with
  | .seq _ _ items =>
    .ofExcept dst ((items.mapM rune).map fun chars => .string (String.ofList chars))
  | _ => .failed (.wrongSource "rune slice" src.type) dst

end Recast.Recipe
