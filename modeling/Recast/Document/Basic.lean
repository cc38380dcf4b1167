import Recast.Document.Raw
import Recast.Value.Text

/-!
JSON documents. A number is an integer or a 64-bit floating-point number, and the members of an
object are sorted by key. `Document.parse?` reads a text, `Value.ofDocument` and `Value.toDocument`
lead to values and back.
-/

namespace Recast

inductive Document where
  | null
  | bool (b : Bool)
  | int (n : Int)
  | float (word : FloatKind.float64.Word)
  | string (s : String)
  | array (items : List Document)
  | object (members : List (String × Document))

abbrev Members := List (String × Document)

/-- Puts a member in its place, over an earlier one of the same key. -/
def Members.insert (key : String) (document : Document) : Members → Members
  | [] => [(key, document)]
  | (k, old) :: members =>
    if key < k then (key, document) :: (k, old) :: members
    else if key = k then (key, document) :: members
    else (k, old) :: Members.insert key document members

/-- The integers that a document holds as integers: those of 64 bits, signed or not. -/
def Document.holdsInt (n : Int) : Bool := IntKind.int64.least ≤ n && n ≤ IntKind.uint64.greatest

/-- A number without point and exponent is an integer as far as 64 bits go, -0 excepted. A number
past the range of floating-point numbers is refused. -/
def NumberText.toDocument? (n : NumberText) : Option Document :=
  let magnitude : Int := IntegerLiteral.ofDigits 10 n.whole
  let value := if n.negative then -magnitude else magnitude
  match n.fraction, n.exponent with
  | none, none =>
    if Document.holdsInt value && !(n.negative && magnitude == 0) then some (.int value)
    else finite (DecimalLiteral.roundDecimal .float64 n.negative n.whole 0)
  | fraction, exponent =>
    let places := fraction.getD []
    finite <| DecimalLiteral.roundDecimal .float64 n.negative (n.whole ++ places)
      (exponent.getD 0 - places.length)
where
  finite (word : FloatKind.float64.Word) : Option Document :=
    match FloatKind.float64.read word with
    | .finite .. => some (.float word)
    | _ => none

mutual

def RawDocument.toDocument? : RawDocument → Option Document
  | .null => some .null
  | .bool b => some (.bool b)
  | .number n => n.toDocument?
  | .string units => (string? units).map .string
  | .array items => (toDocuments? items).map .array
  | .object members => (toMembers? [] members).map .object

def RawDocument.toDocuments? : List RawDocument → Option (List Document)
  | [] => some []
  | item :: items => do
    let document ← item.toDocument?
    let documents ← toDocuments? items
    some (document :: documents)

def RawDocument.toMembers? (before : Members) :
    List (List StringUnit × RawDocument) → Option Members
  | [] => some before
  | (key, v) :: members => do
    let key ← string? key
    let document ← v.toDocument?
    toMembers? (before.insert key document) members

end

/-- Deeper texts are refused. -/
def Document.maxDepth : Nat := 127

def Document.parse? (text : String) : Option Document := do
  let raw ← RawDocument.parse? text
  if raw.depth ≤ maxDepth then raw.toDocument? else none

namespace Value

mutual

def ofDocument : Document → Value
  | .null => .nil
  | .bool b => .scalar (.bool b)
  | .int n =>
    if n ≤ IntKind.int64.greatest then .int .int64 n else .int .uint64 n
  | .float word => .scalar (.float .float64 word)
  | .string s => .string s
  | .array items => .seq .any none (ofDocuments items)
  | .object members => .map .string .any (ofMembers members)

def ofDocuments : List Document → List Value
  | [] => []
  | item :: items => ofDocument item :: ofDocuments items

def ofMembers : Members → Entries
  | [] => []
  | (key, document) :: members => (.string key, ofDocument document) :: ofMembers members

end

/-- Numbers that are not finite become null. -/
def scalarDocument : Scalar → Document
  | .bool b => .bool b
  | .int k word => .int (k.value word)
  | .float k word =>
    match k.read word with
    | .finite .. => .float (k.convert .float64 word)
    | _ => .null
  | .string s => .string s

mutual

/-- Structs and maps become objects, a key being its text, and pointers what they lead to. -/
def toDocument : Value → Document
  | .nil | .nilPointer _ => .null
  | .scalar s => scalarDocument s
  | .map _ _ entries => .object (entryMembers [] entries)
  | .struct _ fields => .object (fieldMembers [] fields)
  | .seq _ _ items => .array (itemDocuments items)
  | .pointer _ target => target.toDocument

def entryMembers (before : Members) : Entries → Members
  | [] => before
  | (k, v) :: entries => entryMembers (before.insert k.text v.toDocument) entries

def fieldMembers (before : Members) : Fields → Members
  | [] => before
  | (name, v) :: fields => fieldMembers (before.insert name v.toDocument) fields

def itemDocuments : List Value → List Document
  | [] => []
  | v :: items => v.toDocument :: itemDocuments items

end

end Value

end Recast
