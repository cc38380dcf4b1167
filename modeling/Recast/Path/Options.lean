import Recast.Text.Lowercase

/-!
Options of a path lookup.
-/

namespace Recast

inductive PathOption where
  | ignoreCase | ignoreNotFound | ignoreError
  deriving DecidableEq

structure PathOptions where
  /-- Compare names without regard to case. -/
  ignoreCase : Bool := false
  /-- Where a value is required, take nil for one that is not found. -/
  ignoreNotFound : Bool := false
  /-- Where a value is required, take nil in place of an error. -/
  ignoreError : Bool := false
  deriving DecidableEq

namespace PathOptions

def add (options : PathOptions) : PathOption → PathOptions
  | .ignoreCase => { options with ignoreCase := true }
  | .ignoreNotFound => { options with ignoreNotFound := true }
  | .ignoreError => { options with ignoreError := true }

def contains (options : PathOptions) : PathOption → Bool
  | .ignoreCase => options.ignoreCase
  | .ignoreNotFound => options.ignoreNotFound
  | .ignoreError => options.ignoreError

def ofList (flags : List PathOption) : PathOptions := flags.foldl add {}

def matchesName (options : PathOptions) (candidate wanted : String) : Bool :=
  if options.ignoreCase then Text.foldEq candidate wanted else candidate == wanted

end PathOptions

end Recast
