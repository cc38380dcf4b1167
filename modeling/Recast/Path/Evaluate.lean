import Recast.Path.Basic
import Recast.Path.Options
import Recast.Value.Text

/-!
Following a path into a value. Pointers are followed without a segment of their own. A name or
position that is not there is an answer; only a step into something without parts is an error.
-/

namespace Recast

/-- A step into a value without parts. -/
structure PathError where
  /-- The type of that value. -/
  found : String
  /-- The path from that step on. -/
  remaining : String
  deriving DecidableEq

namespace PathError

def shapeMismatch (v : Value) (remaining : String) : PathError where
  found :=
    match v with
    | .nil => "nil"
    | .nilPointer pointee => "nil " ++ (Ty.pointer pointee).text
    | v => v.type.text
  remaining := remaining

def message (error : PathError) : String :=
  s!"unable to evaluate `{error.remaining}` on {error.found}: not a map, struct or sequence"

end PathError

namespace Path

/-- The item at a position; there is none at a negative one. -/
def itemAt? {α : Type} (items : List α) (index : Int) : Option α :=
  if index < 0 then none else items[index.toNat]?

/-- Named values in the byte order of the names. Equal names keep their order. -/
def sortByName (named : List (String × Value)) : List (String × Value) :=
  named.mergeSort fun a b => a.1 ≤ b.1

/-- The entries of a map whose keys are texts, pointers followed. -/
def namedEntries (entries : Entries) : List (String × Value) :=
  entries.filterMap fun entry => entry.1.elemString?.map fun name => (name, entry.2)

def isNamed (options : PathOptions) (name : String) (v : Value) : Bool :=
  v.scalarText?.any fun text => options.matchesName text name

def mapStep (options : PathOptions) (entries : Entries) (segment : Segment) : Option Value :=
  match segment.index? with
  | some index => (itemAt? (sortByName (namedEntries entries)) index).map (·.2)
  | none => (entries.find? fun entry => isNamed options segment.text entry.1).map (·.2)

/-- Of fields with one name the last counts. -/
def structStep (options : PathOptions) (fields : Fields) (segment : Segment) : Option Value :=
  match segment.index? with
  | some index => (itemAt? (sortByName fields.reverse) index).map (·.2)
  | none =>
    (fields.reverse.find? fun field => options.matchesName field.1 segment.text).map (·.2)

/-- A name finds the last item that has it as its text. -/
def sequenceStep (options : PathOptions) (items : List Value) (segment : Segment) : Option Value :=
  match segment.index? with
  | some index => itemAt? items index
  | none => items.reverse.find? (isNamed options segment.text)

/-- What one segment leads to, or nothing if the value has no parts. -/
def step? (options : PathOptions) (segment : Segment) : Value → Option (Option Value)
  | .map _ _ entries => some (mapStep options entries segment)
  | .struct _ fields => some (structStep options fields segment)
  | .seq _ _ items => some (sequenceStep options items segment)
  | _ => none

def walk (options : PathOptions) : List Segment → Value → Except PathError (Option Value)
  | [], v => .ok (some v)
  | segment :: segments, v =>
    match step? options segment v.elem with
    | none => .error (.shapeMismatch v.elem (joinSegments (segment :: segments)))
    | some none => .ok none
    | some (some next) => walk options segments next

def evaluate (path : Path) (options : PathOptions) (v : Value) : Except PathError (Option Value) :=
  walk options path.segments v

end Path

namespace Value

/-- The value that an expression leads to. -/
def find? (v : Value) (expression : String) (options : PathOptions := {}) :
    Except PathError (Option Value) :=
  (Path.parse expression).evaluate options v

def contains (v : Value) (expression : String) (options : PathOptions := {}) :
    Except PathError Bool :=
  (v.find? expression options).map Option.isSome

/-- The value that an expression has to lead to, or the report that it does not. The options turn
either failure into nil. -/
def require (v : Value) (expression : String) (options : PathOptions := {}) :
    Except String Value :=
  match v.find? expression options with
  | .ok (some found) => .ok found
  | .ok none =>
    if options.ignoreNotFound then .ok .nil
    else .error s!"unable to find `{expression}` in {v.text}"
  | .error error =>
    if options.ignoreError then .ok .nil
    else .error s!"unable to evaluate `{expression}` in {v.text}: {error.message}"

end Value

end Recast
