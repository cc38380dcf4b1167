import Mathlib.Logic.Function.Iterate
import Mathlib.Logic.Relation
import Recast.Proofs.Joining
import Recast.Proofs.Paths

/-!
Normal forms of path expressions. An empty segment can be dropped from an expression together with a
dot, at either end or between two dots (`Path.Drops`). However this goes on, it ends with the text
of the path that the expression is parsed to (`Path.strips_iff`). So that text is the normal form of
every expression of the path, and two expressions have the same path just if they are the same
after their empty segments are dropped (`Path.parse_eq_iff`).
-/

namespace Recast.Path

/-! ## Pieces of an expression -/

/-- The texts between the dots of an expression, empty ones included. -/
def pieces (expression : String) : List String :=
  (splitDots expression.toList).map String.ofList

/-- An expression is its pieces with dots between them. -/
theorem intercalate_pieces (e : String) : ".".intercalate (pieces e) = e := by
  apply String.toList_inj.1
  have parts : (pieces e).map String.toList = e.toList.splitOn '.' := by
    simp [pieces, splitDots_eq_splitOn]
  rw [String.toList_intercalate, parts]
  exact List.intercalate_splitOn '.'

theorem texts_parse (e : String) :
    (parse e).segments.map (·.text) = (pieces e).filter (· ≠ "") := by
  simp only [parse, pieces, List.map_map, List.filter_map]
  congr 1
  apply List.filter_congr
  intro part _
  cases part <;> simp

theorem isPlain_of_mem_parse {e : String} {s : Segment} (h : s ∈ (parse e).segments) :
    s.IsPlain := by
  obtain ⟨part, hpart, rfl⟩ := List.mem_map.1 h
  obtain ⟨member, filled⟩ := List.mem_filter.1 hpart
  constructor
  · simpa using filled
  · simpa using dot_notMem_of_mem_splitDots member

theorem segments_iterate_rest (n : Nat) (path : Path) :
    (rest^[n] path).segments = path.segments.drop n := by
  induction n generalizing path with
  | zero => rfl
  | succ n ih => rw [Function.iterate_succ_apply, ih, rest, List.drop_tail]

/-! ## Dropping empty segments -/

/-- An empty segment is dropped: the first one, the last one, or one between two others. -/
inductive Drops : String → String → Prop
  | first (back : String) : Drops ("." ++ back) back
  | last (front : String) : Drops (front ++ ".") front
  | between (front back : String) : Drops (front ++ "." ++ "." ++ back) (front ++ "." ++ back)

/-- `b` is `a` without its empty segments: some have been dropped, and none is left. -/
def Strips (a b : String) : Prop := Relation.ReflTransGen Drops a b ∧ ∀ c, ¬Drops b c

variable {a b : String}

theorem Drops.length_lt (h : Drops a b) : b.length < a.length := by
  have dot : ".".length = 1 := rfl
  cases h with
  | first | last | between =>
    simp only [String.length_append]
    omega

theorem segments_parse_dot (e : String) : (parse (e ++ ".")).segments = (parse e).segments := by
  have joined := segments_parse_join e ""
  rw [String.append_empty] at joined
  exact joined.trans (List.append_nil _)

/-- **An empty segment makes no difference** to the path. -/
theorem Drops.parse_eq (h : Drops a b) : parse a = parse b := by
  suffices same : (parse a).segments = (parse b).segments from congrArg Path.mk same
  cases h with
  | first => exact segments_parse_join "" b
  | last => exact segments_parse_dot b
  | between => rw [segments_parse_join, segments_parse_join, segments_parse_dot]

/-- An empty piece can be dropped, unless it is the whole expression. -/
theorem exists_drops (filled : a ≠ "") (empty : "" ∈ pieces a) : ∃ b, Drops a b := by
  obtain ⟨front, back, split⟩ := List.append_of_mem empty
  have joined := intercalate_pieces a
  rw [split] at joined
  by_cases first : front = []
  · subst first
    by_cases last : back = []
    · subst last
      exact absurd joined.symm filled
    · rw [List.nil_append, String.intercalate_cons_of_ne_nil last, String.empty_append] at joined
      rw [← joined]
      exact ⟨_, .first _⟩
  · rw [String.intercalate_append_of_ne_nil first (List.cons_ne_nil _ _)] at joined
    by_cases last : back = []
    · rw [last, String.intercalate_singleton, String.append_empty] at joined
      rw [← joined]
      exact ⟨_, .last _⟩
    · rw [String.intercalate_cons_of_ne_nil last, String.empty_append, ← String.append_assoc]
        at joined
      rw [← joined]
      exact ⟨_, .between _ _⟩

/-- Dropping empty segments leads to the text of the path. -/
theorem reaches_text (e : String) : Relation.ReflTransGen Drops e (parse e).text := by
  by_cases more : e ≠ "" ∧ "" ∈ pieces e
  · -- What is left is shorter, so this ends with an expression that has no empty piece.
    obtain ⟨next, drops⟩ := exists_drops more.1 more.2
    have shorter := drops.length_lt
    rw [drops.parse_eq]
    exact .head drops (reaches_text next)
  · have same : (parse e).text = e := by
      by_cases filled : e = ""
      · subst filled
        rfl
      · have none : ∀ piece ∈ pieces e, decide (piece ≠ "") = true := by
          rintro piece member
          rw [decide_eq_true_eq]
          rintro rfl
          exact more ⟨filled, member⟩
        rw [text, joinSegments, texts_parse, List.filter_eq_self.2 none, intercalate_pieces]
    rw [same]
termination_by e.length

theorem parse_eq_of_reaches (h : Relation.ReflTransGen Drops a b) : parse a = parse b := by
  induction h with
  | refl => rfl
  | tail _ drops ih => exact ih.trans drops.parse_eq

theorem parse_text_parse (e : String) : parse (parse e).text = parse e :=
  (parse_eq_of_reaches (reaches_text e)).symm

theorem length_le_of_reaches (h : Relation.ReflTransGen Drops a b) : b.length ≤ a.length := by
  induction h with
  | refl => exact Nat.le_refl _
  | tail _ drops ih => exact Nat.le_trans (Nat.le_of_lt drops.length_lt) ih

/-- **An expression without its empty segments is the text of its path**, in whatever order they are
dropped. -/
theorem strips_iff : Strips a b ↔ b = (parse a).text := by
  constructor
  · rintro ⟨reached, stuck⟩
    rw [parse_eq_of_reaches reached]
    rcases (reaches_text b).cases_head with same | ⟨c, drops, -⟩
    · exact same
    · exact absurd drops (stuck c)
  · rintro rfl
    refine ⟨reaches_text a, fun c drops => ?_⟩
    -- The rest of the way from `c` leads back to the same text, which is longer than `c`.
    have back : (parse c).text = (parse a).text := by
      rw [← drops.parse_eq, parse_text_parse]
    have shorter : c.length < (parse a).text.length := drops.length_lt
    have longer : (parse c).text.length ≤ c.length := length_le_of_reaches (reaches_text c)
    rw [back] at longer
    omega

/-- **Expressions have the same path just if they are the same without their empty segments.** -/
theorem parse_eq_iff : parse a = parse b ↔ ∃ c, Strips a c ∧ Strips b c := by
  simp only [strips_iff, exists_eq_left]
  constructor
  · intro same
    rw [same]
  · intro same
    rw [← parse_text_parse a, same, parse_text_parse]

example : parse ".A..B." = parse "A.B" ∧ (parse ".A..B.").text = "A.B" := ⟨rfl, rfl⟩

/-! ## The normal form of a path -/

/-- **The text of a path is its normal form.** After any number of steps, the segments that remain
are not empty and in one piece, and they are read back from their text, positions included. Joined
expressions have the segments of both. Two expressions have the same path just if they are the same
when their empty segments are dropped. -/
theorem parse_normal :
    (∀ (e : String) (n : Nat),
      (∀ s ∈ (rest^[n] (parse e)).segments, s.text ≠ "" ∧ '.' ∉ s.text.toList) ∧
      parse (rest^[n] (parse e)).text = rest^[n] (parse e) ∧
      (parse (rest^[n] (parse e)).text).segments.map Segment.index? =
        (rest^[n] (parse e)).segments.map Segment.index?) ∧
    (∀ a b : String,
      (parse (a ++ "." ++ b)).segments = (parse a).segments ++ (parse b).segments) ∧
    (∀ a b : String, parse a = parse b ↔ ∃ c, Strips a c ∧ Strips b c) := by
  refine ⟨fun e n => ?_, segments_parse_join, fun _ _ => parse_eq_iff⟩
  have plain : ∀ s ∈ (rest^[n] (parse e)).segments, s.IsPlain := by
    intro s hs
    rw [segments_iterate_rest] at hs
    exact isPlain_of_mem_parse (List.mem_of_mem_drop hs)
  have again : parse (rest^[n] (parse e)).text = rest^[n] (parse e) := parse_text plain
  refine ⟨fun s hs => ⟨(plain s hs).nonempty, (plain s hs).undotted⟩, again, ?_⟩
  rw [again]

end Recast.Path
