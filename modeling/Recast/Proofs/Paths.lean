import Mathlib.Data.List.Nodup
import Recast.Path.Evaluate

/-!
Paths and their texts. A path whose segments are in one piece is read back from its text
(`parse_text`), and a walk along names goes from one part with parts of its own to the next.
-/

namespace Recast

/-- One segment by itself: not empty, and in one piece. -/
structure Segment.IsPlain (s : Segment) : Prop where
  nonempty : s.text ≠ ""
  undotted : '.' ∉ s.text.toList

/-- A name as a segment: not empty, in one piece, and not a position. -/
structure Segment.IsName (s : Segment) : Prop where
  nonempty : s.text ≠ ""
  undotted : '.' ∉ s.text.toList
  unnumbered : s.index? = none

theorem Segment.IsName.isPlain {s : Segment} (h : s.IsName) : s.IsPlain :=
  ⟨h.nonempty, h.undotted⟩

namespace Path

/-! ## The text of a path -/

theorem splitDots_eq_splitOn (cs : List Char) : splitDots cs = cs.splitOn '.' := by
  induction cs with
  | nil => rfl
  | cons c cs ih =>
    rw [List.splitOn_cons_eq_if_modifyHead, ← ih]
    by_cases dot : c = '.'
    · subst dot
      rfl
    · rw [if_neg (by simpa using dot), splitDots]
      · cases split : splitDots cs with
        | nil => exact absurd split (splitDots_ne_nil cs)
        | cons part parts => rfl
      · exact dot

/-- **A path is read back from its text**, if its segments are not empty and in one piece. -/
theorem parse_text {path : Path} (h : ∀ s ∈ path.segments, s.IsPlain) :
    parse path.text = path := by
  obtain ⟨segments⟩ := path
  have texts : (text ⟨segments⟩).toList = ['.'].intercalate (segments.map (·.text.toList)) := by
    simp [text, joinSegments, String.toList_intercalate, Function.comp_def]
  rw [parse, texts]
  by_cases none : segments = []
  · subst none
    rfl
  · have undotted : ∀ part ∈ segments.map (·.text.toList), '.' ∉ part := by
      intro part hpart
      obtain ⟨s, hs, rfl⟩ := List.mem_map.1 hpart
      exact (h s hs).undotted
    have nonempty : ∀ part ∈ segments.map (·.text.toList), (!part.isEmpty) = true := by
      intro part hpart
      obtain ⟨s, hs, rfl⟩ := List.mem_map.1 hpart
      simpa using (h s hs).nonempty
    rw [splitDots_eq_splitOn, List.splitOn_intercalate '.' undotted (by simpa using none),
      List.filter_eq_self.2 nonempty, List.map_map]
    simp [Function.comp_def]

/-! ## One step after the other -/

theorem walk_cons_eq_some {options : PathOptions} {segment : Segment} {segments : List Segment}
    {v found : Value} :
    walk options (segment :: segments) v = .ok (some found) ↔
      ∃ next, step? options segment v.elem = some (some next) ∧
        walk options segments next = .ok (some found) := by
  rw [walk]
  split <;> simp_all

/-- A name leads to the field that has it, where no other has. -/
theorem step?_of_mem {struct : String} {fields : Fields} (apart : (fields.map (·.1)).Nodup)
    {name : String} {v : Value} (member : (name, v) ∈ fields)
    (unnumbered : (Segment.mk name).index? = none) :
    step? {} ⟨name⟩ (.struct struct fields) = some (some v) := by
  simp only [step?, structStep, unnumbered, Option.some.injEq, Option.map_eq_some_iff]
  cases found : fields.reverse.find? fun field => PathOptions.matchesName {} field.1 name with
  | none =>
    have refused := List.find?_eq_none.1 found (name, v) (List.mem_reverse.2 member)
    simp [PathOptions.matchesName] at refused
  | some field =>
    have same : field.1 = name := by simpa [PathOptions.matchesName] using List.find?_some found
    have there := List.mem_reverse.1 (List.mem_of_find?_eq_some found)
    obtain rfl : field = (name, v) := List.inj_on_of_nodup_map apart there member same
    exact ⟨_, rfl, rfl⟩

end Path

end Recast
