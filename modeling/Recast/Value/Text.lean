import Recast.Value.Basic

/-!
The text of values in messages and of scalars in comparisons.
-/

namespace Recast

/-- `open`, the parts with a space between, `close`. -/
def bracketed (opening closing : String) (parts : List String) : String :=
  opening ++ " ".intercalate parts ++ closing

namespace Value

mutual

def text : Value → String
  | .nil | .nilPointer _ => "<nil>"
  | .scalar s => s.text
  | .map _ _ entries => bracketed "map[" "]" (entryTexts entries)
  | .struct _ fields => bracketed "\x7b" "\x7d" (fieldTexts fields)
  | .seq _ _ items => bracketed "[" "]" (itemTexts items)
  | .pointer _ target => "&" ++ target.text

def entryTexts : Entries → List String
  | [] => []
  | (k, v) :: entries => (k.text ++ ":" ++ v.text) :: entryTexts entries

def fieldTexts : Fields → List String
  | [] => []
  | (name, v) :: fields => (name ++ ":" ++ v.text) :: fieldTexts fields

def itemTexts : List Value → List String
  | [] => []
  | v :: items => v.text :: itemTexts items

end

/-- The text of the scalar that live pointers lead to. -/
def scalarText? : Value → Option String
  | .scalar s => some s.text
  | .pointer _ target => target.scalarText?
  | _ => none

/-- The text itself, if live pointers lead to one. -/
def elemString? : Value → Option String
  | .scalar (.string s) => some s
  | .pointer _ target => target.elemString?
  | _ => none

end Value

end Recast
