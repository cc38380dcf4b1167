import Recast.Path.Evaluate

/-!
Paths that are joined. A dot between two expressions puts the segments of the second one after those
of the first (`Path.segments_parse_join`), and a walk along both goes on from where the first one
led (`Path.walk_append`). So the parts of an expression can be followed one by one
(`Value.find?_join`): empty segments at the seam are dropped, and what ends the walk along the
first part ends the whole, with the second part counted among what remains.
-/

namespace Recast

/-- The error of a step that had `rest` ahead as well. -/
def PathError.before (error : PathError) (rest : Path) : PathError where
  found := error.found
  remaining := if rest.isEmpty then error.remaining else error.remaining ++ "." ++ rest.text

namespace Path

/-! ## Segments of joined expressions -/

/-- **Joined expressions have the segments of both**, whatever dots stand at their ends. -/
theorem segments_parse_join (a b : String) :
    (parse (a ++ "." ++ b)).segments = (parse a).segments ++ (parse b).segments := by
  have split : splitDots (a ++ "." ++ b).toList = splitDots a.toList ++ splitDots b.toList := by
    rw [String.toList_append, String.toList_append, List.append_assoc]
    exact splitDots_append a.toList b.toList
  simp only [parse, split, List.filter_append, List.map_append]

/-- A step that fails with more segments ahead reports these as well. -/
theorem shapeMismatch_append (v : Value) {front : List Segment} (hf : front ≠ []) (rest : Path) :
    PathError.shapeMismatch v (joinSegments (front ++ rest.segments)) =
      (PathError.shapeMismatch v (joinSegments front)).before rest := by
  by_cases ended : rest.segments = []
  · simp [PathError.before, isEmpty, ended]
  · have texts : front.map (·.text) ≠ [] ∧ rest.segments.map (·.text) ≠ [] := by simp [hf, ended]
    rw [joinSegments, List.map_append, String.intercalate_append_of_ne_nil texts.1 texts.2]
    simp [PathError.before, PathError.shapeMismatch, isEmpty, ended, text, joinSegments]

/-! ## Walks along joined paths -/

/-- **A walk along more segments** goes on where the first ones lead. It ends with them if they lead
nowhere. If they fail, the other segments were ahead of the failure too. -/
theorem walk_append (options : PathOptions) (front : List Segment) (rest : Path) (v : Value) :
    walk options (front ++ rest.segments) v =
      match walk options front v with
      | .ok (some w) => walk options rest.segments w
      | .ok none => .ok none
      | .error error => .error (error.before rest) := by
  induction front generalizing v with
  | nil => rfl
  | cons segment front ih =>
    rw [List.cons_append, walk, walk]
    cases step? options segment v.elem with
    | none =>
      -- The segment that fails is among those that remain, so a dot stands between the texts.
      have nonempty : segment :: front ≠ [] := List.cons_ne_nil segment front
      exact congrArg Except.error (shapeMismatch_append v.elem nonempty rest)
    | some next? =>
      cases next? with
      | none => rfl
      | some next => exact ih next

end Path

/-- **A joined expression is followed part by part.** Where the first part leads to a value, the
second one is followed from there. Where the first part leads nowhere, so does the whole, and the
second one cannot fail any more. Where the first part steps into something without parts, the whole
fails on the same type, with the segments of the second part added to what remains. -/
theorem Value.find?_join (v : Value) (a b : String) (options : PathOptions) :
    v.find? (a ++ "." ++ b) options =
      match v.find? a options with
      | .ok (some w) => w.find? b options
      | .ok none => .ok none
      | .error error => .error (error.before (Path.parse b)) := by
  rw [Value.find?, Path.evaluate, Path.segments_parse_join, Path.walk_append]
  rfl

/-- Dots at the seam are dropped from what remains. -/
example :
    let joe : Value := .map .string .any [(.string "Name", .string "Joe")]
    joe.find? "Name.First." = .error ⟨"string", "First"⟩ ∧
      joe.find? ("Name.First." ++ "." ++ "..0.") = .error ⟨"string", "First.0"⟩ :=
  ⟨rfl, rfl⟩

end Recast
