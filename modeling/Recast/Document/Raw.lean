import Recast.Number.DecimalLiteral

/-!
JSON texts read by their grammar alone. Escapes of a string are kept as numbers, and a number is
kept as its digits, so that a text can be accepted before its strings and numbers have a meaning.
-/

namespace Recast

/-- A character of a string as it is written: itself, or the number in an escape. -/
inductive StringUnit where
  | char (c : Char)
  | code (n : Nat)

structure NumberText where
  negative : Bool
  whole : List Nat
  fraction : Option (List Nat)
  exponent : Option Int

inductive RawDocument where
  | null
  | bool (b : Bool)
  | number (n : NumberText)
  | string (units : List StringUnit)
  | array (items : List RawDocument)
  | object (members : List (List StringUnit × RawDocument))

namespace RawDocument

def skipSpace (cs : List Char) : List Char := cs.dropWhile (· ∈ [' ', '\n', '\t', '\r'])

def hexCode? (digits : List Char) : Option Nat :=
  (digits.mapM (IntegerLiteral.digit? 16)).map (IntegerLiteral.ofDigits 16)

/-- The character that a letter stands for after a backslash. -/
def escaped? : Char → Option Char
  | '"' => some '"'
  | '\\' => some '\\'
  | '/' => some '/'
  | 'b' => some '\x08'
  | 'f' => some '\x0c'
  | 'n' => some '\n'
  | 'r' => some '\r'
  | 't' => some '\t'
  | _ => none

/-- The rest of a string whose opening quotation mark has been read. -/
def readString : List Char → Option (List StringUnit × List Char)
  | [] => none
  | '"' :: cs => some ([], cs)
  | '\\' :: 'u' :: a :: b :: c :: d :: cs => do
    let n ← hexCode? [a, b, c, d]
    let (units, rest) ← readString cs
    some (.code n :: units, rest)
  | '\\' :: e :: cs => do
    let c ← escaped? e
    let (units, rest) ← readString cs
    some (.char c :: units, rest)
  | c :: cs =>
    if c = '\\' ∨ c.toNat < 0x20 then none
    else do
      let (units, rest) ← readString cs
      some (.char c :: units, rest)

/-- Digits that must be there. -/
def readDigits (cs : List Char) : Option (List Nat × List Char) :=
  match DecimalLiteral.spanDigits cs with
  | ([], _) => none
  | found => some found

def readFraction : List Char → Option (Option (List Nat) × List Char)
  | '.' :: cs => (readDigits cs).map fun (digits, rest) => (some digits, rest)
  | cs => some (none, cs)

def readExponent : List Char → Option (Option Int × List Char)
  | [] => some (none, [])
  | c :: cs =>
    if c = 'e' ∨ c = 'E' then
      let (negative, cs) := IntegerLiteral.splitSign cs
      (readDigits cs).map fun (digits, rest) =>
        let n : Int := IntegerLiteral.ofDigits 10 digits
        (some (if negative then -n else n), rest)
    else some (none, c :: cs)

/-- A number. Its whole part has no leading zero. -/
def readNumber (cs : List Char) : Option (NumberText × List Char) := do
  let (negative, cs) := match cs with
    | '-' :: cs => (true, cs)
    | cs => (false, cs)
  let (whole, cs) ← readDigits cs
  if whole.head? = some 0 ∧ whole.length ≠ 1 then none
  else
    let (fraction, cs) ← readFraction cs
    let (exponent, cs) ← readExponent cs
    some (⟨negative, whole, fraction, exponent⟩, cs)

mutual

/-- Reads one value and leaves what follows it. Every call spends one unit of the budget. -/
def readValue : (budget : Nat) → List Char → Option (RawDocument × List Char)
  | 0, _ => none
  | budget + 1, cs =>
    match skipSpace cs with
    | 'n' :: 'u' :: 'l' :: 'l' :: cs => some (.null, cs)
    | 't' :: 'r' :: 'u' :: 'e' :: cs => some (.bool true, cs)
    | 'f' :: 'a' :: 'l' :: 's' :: 'e' :: cs => some (.bool false, cs)
    | '"' :: cs => (readString cs).map fun (units, rest) => (.string units, rest)
    | '[' :: cs =>
      match skipSpace cs with
      | ']' :: cs => some (.array [], cs)
      | cs => (readItems budget cs).map fun (items, rest) => (.array items, rest)
    | '\x7b' :: cs =>
      match skipSpace cs with
      | '\x7d' :: cs => some (.object [], cs)
      | cs => (readMembers budget cs).map fun (members, rest) => (.object members, rest)
    | cs => (readNumber cs).map fun (n, rest) => (.number n, rest)

def readItems : (budget : Nat) → List Char → Option (List RawDocument × List Char)
  | 0, _ => none
  | budget + 1, cs => do
    let (item, cs) ← readValue budget cs
    match skipSpace cs with
    | ',' :: cs =>
      let (items, rest) ← readItems budget cs
      some (item :: items, rest)
    | ']' :: cs => some ([item], cs)
    | _ => none

def readMembers :
    (budget : Nat) → List Char → Option (List (List StringUnit × RawDocument) × List Char)
  | 0, _ => none
  | budget + 1, cs =>
    match skipSpace cs with
    | '"' :: cs => do
      let (key, cs) ← readString cs
      match skipSpace cs with
      | ':' :: cs =>
        let (v, cs) ← readValue budget cs
        match skipSpace cs with
        | ',' :: cs =>
          let (members, rest) ← readMembers budget cs
          some ((key, v) :: members, rest)
        | '\x7d' :: cs => some ([(key, v)], cs)
        | _ => none
      | _ => none
    | _ => none

end

/-- The document that makes up a whole text. Along a chain of calls at least every other one reads a
character. -/
def parse? (text : String) : Option RawDocument :=
  match readValue (2 * text.length + 2) text.toList with
  | some (document, rest) => if (skipSpace rest).isEmpty then some document else none
  | none => none

mutual

/-- How deep arrays and objects nest. -/
def depth : RawDocument → Nat
  | .array items => depthItems items + 1
  | .object members => depthMembers members + 1
  | _ => 0

def depthItems : List RawDocument → Nat
  | [] => 0
  | item :: items => max item.depth (depthItems items)

def depthMembers : List (List StringUnit × RawDocument) → Nat
  | [] => 0
  | (_, v) :: members => max v.depth (depthMembers members)

end

/-- The text of a string. Escaped surrogates have to come in pairs. -/
def chars? : List StringUnit → Option (List Char)
  | [] => some []
  | .char c :: units => (chars? units).map (c :: ·)
  | .code high :: .code low :: units =>
    if 0xD800 ≤ high ∧ high < 0xDC00 then
      if 0xDC00 ≤ low ∧ low < 0xE000 then
        (chars? units).map (Char.ofNat (0x10000 + (high - 0xD800) * 0x400 + (low - 0xDC00)) :: ·)
      else none
    else if 0xDC00 ≤ high ∧ high < 0xE000 then none
    else (chars? (.code low :: units)).map (Char.ofNat high :: ·)
  | .code n :: units =>
    if 0xD800 ≤ n ∧ n < 0xE000 then none else (chars? units).map (Char.ofNat n :: ·)

def string? (units : List StringUnit) : Option String := (chars? units).map String.ofList

end RawDocument

end Recast
