import Recast.Number.IntegerLiteral

/-!
Dotted paths. A path is the list of the non-empty texts between its dots, and a segment that is an
integer literal also stands for a position.
-/

namespace Recast

structure Segment where
  text : String
  deriving DecidableEq

namespace Segment

/-- The position a segment stands for, in 64 bits. -/
def index? (s : Segment) : Option Int := (IntegerLiteral.parseSigned 64 s.text).toOption

def isIndex (s : Segment) : Bool := s.index?.isSome

end Segment

structure Path where
  segments : List Segment
  deriving DecidableEq

namespace Path

/-- The texts between dots. -/
def splitDots : List Char → List (List Char)
  | [] => [[]]
  | '.' :: cs => [] :: splitDots cs
  | c :: cs =>
    match splitDots cs with
    | part :: parts => (c :: part) :: parts
    | [] => [[c]]

theorem splitDots_ne_nil (cs : List Char) : splitDots cs ≠ [] := by
  fun_induction splitDots cs <;> simp_all

theorem dot_notMem_of_mem_splitDots {cs part : List Char} (h : part ∈ splitDots cs) :
    '.' ∉ part := by
  fun_induction splitDots cs generalizing part with
  | case1 => simp_all
  | case2 cs ih =>
    rcases List.mem_cons.1 h with rfl | h
    · exact List.not_mem_nil
    · exact ih h
  | case3 c cs hc first parts hs ih =>
    rw [hs] at ih
    rcases List.mem_cons.1 h with rfl | h
    · simpa using ⟨fun e => hc e.symm, ih List.mem_cons_self⟩
    · exact ih (List.mem_cons_of_mem _ h)
  | case4 c cs _ hs => exact absurd hs (splitDots_ne_nil cs)

/-- A dot between two texts separates their parts. -/
theorem splitDots_append (a b : List Char) :
    splitDots (a ++ '.' :: b) = splitDots a ++ splitDots b := by
  fun_induction splitDots a with
  | case1 => rfl
  | case2 cs ih => simp [splitDots, ih]
  | case3 c cs hc first parts hs ih =>
    rw [List.cons_append, splitDots, ih, hs]
    · rfl
    · exact hc
  | case4 c cs _ hs => exact absurd hs (splitDots_ne_nil cs)

def parse (expression : String) : Path :=
  ⟨((splitDots expression.toList).filter (!·.isEmpty)).map fun part => ⟨String.ofList part⟩⟩

def joinSegments (segments : List Segment) : String := ".".intercalate (segments.map (·.text))

def text (path : Path) : String := joinSegments path.segments

def first? (path : Path) : Option Segment := path.segments.head?

/-- The path without its first segment. -/
def rest (path : Path) : Path := ⟨path.segments.tail⟩

def length (path : Path) : Nat := path.segments.length

def isEmpty (path : Path) : Bool := path.segments.isEmpty

end Path

end Recast
