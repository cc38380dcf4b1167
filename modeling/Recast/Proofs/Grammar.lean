import Mathlib.Data.Nat.Digits.Defs
import Mathlib.Tactic.SplitIfs
import Recast.Number.IntegerLiteral

/-!
The grammar of integer literals. `Denotes` says which texts are literals and what number each of
them stands for, by the digits that a numeral is printed with and the value of a list of digits. The
reader accepts exactly these texts, with these numbers (`magnitude?_eq_some`), so no text denotes
two numbers.
-/

namespace Recast.IntegerLiteral

/-! ## Literals -/

/-- The character is a digit of the base, in either case, and has the value. -/
def DigitOf (radix : Nat) (c : Char) (d : Nat) : Prop :=
  d < radix ∧ (c = d.digitChar ∨ c = d.digitChar.toUpper)

/-- Digits in a row. One underscore may stand between two of them. -/
inductive Run (radix : Nat) : List Char → List Nat → Prop
  | last {c : Char} {d : Nat} (digit : DigitOf radix c d) : Run radix [c] [d]
  | next {c : Char} {d : Nat} {cs : List Char} {ds : List Nat} (digit : DigitOf radix c d)
      (rest : Run radix cs ds) : Run radix (c :: cs) (d :: ds)
  | separated {c : Char} {d : Nat} {cs : List Char} {ds : List Nat} (digit : DigitOf radix c d)
      (rest : Run radix cs ds) : Run radix (c :: '_' :: cs) (d :: ds)

/-- Digits behind a base marker. One underscore may stand between the marker and the first digit. -/
inductive MarkedRun (radix : Nat) : List Char → List Nat → Prop
  | next {cs : List Char} {ds : List Nat} (rest : Run radix cs ds) : MarkedRun radix cs ds
  | separated {cs : List Char} {ds : List Nat} (rest : Run radix cs ds) :
      MarkedRun radix ('_' :: cs) ds

/-- The text is a literal without sign and denotes the number. A `0` in front of anything else is
the marker of octal digits, none of which is the letter of another marker. -/
inductive Denotes : List Char → Nat → Prop
  | hexadecimal {x : Char} {cs : List Char} {ds : List Nat} (letter : x = 'x' ∨ x = 'X')
      (digits : MarkedRun 16 cs ds) : Denotes ('0' :: x :: cs) (Nat.ofDigits 16 ds.reverse)
  | binary {x : Char} {cs : List Char} {ds : List Nat} (letter : x = 'b' ∨ x = 'B')
      (digits : MarkedRun 2 cs ds) : Denotes ('0' :: x :: cs) (Nat.ofDigits 2 ds.reverse)
  | octal {x : Char} {cs : List Char} {ds : List Nat} (letter : x = 'o' ∨ x = 'O')
      (digits : MarkedRun 8 cs ds) : Denotes ('0' :: x :: cs) (Nat.ofDigits 8 ds.reverse)
  | leadingZero {cs : List Char} {ds : List Nat} (digits : MarkedRun 8 cs ds) :
      Denotes ('0' :: cs) (Nat.ofDigits 8 ds.reverse)
  | zero : Denotes ['0'] 0
  | decimal {cs : List Char} {ds : List Nat} (digits : Run 10 cs ds) (plain : cs.head? ≠ some '0') :
      Denotes cs (Nat.ofDigits 10 ds.reverse)

/-- The text is a literal with an optional sign and denotes the number. -/
inductive SignedDenotes : List Char → Int → Prop
  | plain {cs : List Char} {n : Nat} (literal : Denotes cs n) : SignedDenotes cs n
  | plus {cs : List Char} {n : Nat} (literal : Denotes cs n) : SignedDenotes ('+' :: cs) n
  | minus {cs : List Char} {n : Nat} (literal : Denotes cs n) : SignedDenotes ('-' :: cs) (-n)

/-! ## Digits -/

theorem toNat_digitChar {d : Nat} (h : d < 16) :
    d.digitChar.toNat = (if d < 10 then 48 else 87) + d ∧
      d.digitChar.toUpper.toNat = (if d < 10 then 48 else 55) + d := by
  revert d
  decide

/-- A digit is read with its value. -/
theorem digit?_eq_some {radix : Nat} (small : radix ≤ 16) {c : Char} {d : Nat} :
    digit? radix c = some d ↔ DigitOf radix c d := by
  have ranges : ('0' ≤ c ∧ c ≤ '9' ↔ 48 ≤ c.toNat ∧ c.toNat ≤ 57) ∧
      ('a' ≤ c ∧ c ≤ 'z' ↔ 97 ≤ c.toNat ∧ c.toNat ≤ 122) ∧
      ('A' ≤ c ∧ c ≤ 'Z' ↔ 65 ≤ c.toNat ∧ c.toNat ≤ 90) := ⟨.rfl, .rfl, .rfl⟩
  have codes : '0'.toNat = 48 ∧ 'a'.toNat = 97 ∧ 'A'.toNat = 65 := ⟨rfl, rfl, rfl⟩
  simp only [DigitOf, digit?, ranges, codes, ← Char.toNat_inj, Option.ite_none_right_eq_some,
    Option.some.injEq]
  by_cases bound : d < 16
  · obtain ⟨lower, upper⟩ := toNat_digitChar bound
    rw [lower, upper]
    split_ifs <;> omega
  · constructor
    · rintro ⟨inside, rfl⟩
      exact absurd (Nat.lt_of_lt_of_le inside small) bound
    · rintro ⟨inside, -⟩
      exact absurd (Nat.lt_of_lt_of_le inside small) bound

/-- What is no hexadecimal digit is no digit at all. -/
theorem DigitOf.ne_of_digit? {radix : Nat} (small : radix ≤ 16) {c other : Char} {d : Nat}
    (h : DigitOf radix c d) (none : digit? 16 other = none) : c ≠ other := by
  rintro rfl
  have read := (digit?_eq_some (Nat.le_refl 16)).2 ⟨Nat.lt_of_lt_of_le h.1 small, h.2⟩
  rw [none] at read
  cases read

theorem DigitOf.ne_underscore {radix : Nat} (small : radix ≤ 16) {c : Char} {d : Nat}
    (h : DigitOf radix c d) : c ≠ '_' := h.ne_of_digit? small (by decide)

/-! ## Bodies -/

theorem noDoubled_cons (c : Char) (cs : List Char) :
    noDoubled (c :: cs) = true ↔ (c = '_' → cs.head? ≠ some '_') ∧ noDoubled cs = true := by
  rw [noDoubled.eq_def]
  split
  · next same =>
    obtain ⟨rfl, rfl⟩ := List.cons.inj same
    simp
  · next other same =>
    obtain ⟨rfl, rfl⟩ := List.cons.inj same
    refine ⟨fun rest => ⟨?_, rest⟩, And.right⟩
    rintro rfl first
    obtain ⟨cs, rfl⟩ := List.head?_eq_some_iff.1 first
    exact other cs rfl rfl
  · next same => cases same

/-- No underscore stands first or last, and none beside another. -/
structure Separated (cs : List Char) : Prop where
  single : noDoubled cs = true
  last : cs.getLast? ≠ some '_'
  first : cs.head? ≠ some '_'

/-- The values of the digits of a body, if it has nothing else but underscores. -/
def digits? (radix : Nat) (cs : List Char) : Option (List Nat) :=
  (cs.filter (· != '_')).mapM (digit? radix)

/-- The first digit of a body is told apart from the rest. -/
theorem digits?_cons {radix : Nat} {c : Char} (plain : c ≠ '_') {cs : List Char} {ds : List Nat} :
    digits? radix (c :: cs) = some ds ↔
      ∃ d rest, digit? radix c = some d ∧ digits? radix cs = some rest ∧ ds = d :: rest := by
  have kept : (c != '_') = true := bne_iff_ne.2 plain
  rw [digits?, List.filter_cons, if_pos kept, List.mapM_cons]
  simp only [Option.bind_eq_bind, Option.pure_def, Option.bind_eq_some_iff, Option.some.injEq]
  constructor
  · rintro ⟨d, read, rest, reads, rfl⟩
    exact ⟨d, rest, read, reads, rfl⟩
  · rintro ⟨d, rest, read, reads, rfl⟩
    exact ⟨d, read, rest, reads, rfl⟩

theorem Run.head {radix : Nat} {cs : List Char} {ds : List Nat} (h : Run radix cs ds) :
    ∃ c rest d, cs = c :: rest ∧ DigitOf radix c d := by
  cases h with
  | last digit => exact ⟨_, _, _, rfl, digit⟩
  | next digit => exact ⟨_, _, _, rfl, digit⟩
  | separated digit => exact ⟨_, _, _, rfl, digit⟩

theorem Run.separated_digits {radix : Nat} (small : radix ≤ 16) {cs : List Char} {ds : List Nat}
    (h : Run radix cs ds) :
    cs ≠ [] ∧ Separated cs ∧ digits? radix cs = some ds := by
  induction h with
  | @last c d digit =>
    have plain := digit.ne_underscore small
    have read := (digit?_eq_some small).2 digit
    refine ⟨List.cons_ne_nil _ _, ⟨?_, by simp [plain], by simp [plain]⟩,
      (digits?_cons plain).2 ⟨d, [], read, rfl, rfl⟩⟩
    exact (noDoubled_cons c []).2 ⟨fun _ => by simp, rfl⟩
  | @next c d cs ds digit rest ih =>
    obtain ⟨filled, inner, reads⟩ := ih
    have plain := digit.ne_underscore small
    have read := (digit?_eq_some small).2 digit
    refine ⟨List.cons_ne_nil _ _, ⟨?_, ?_, by simp [plain]⟩,
      (digits?_cons plain).2 ⟨d, ds, read, reads, rfl⟩⟩
    · exact (noDoubled_cons c cs).2 ⟨fun same => absurd same plain, inner.single⟩
    · rw [List.getLast?_cons_of_ne_nil filled]
      exact inner.last
  | @separated c d cs ds digit rest ih =>
    obtain ⟨filled, inner, reads⟩ := ih
    have plain := digit.ne_underscore small
    have read := (digit?_eq_some small).2 digit
    refine ⟨List.cons_ne_nil _ _, ⟨?_, ?_, by simp [plain]⟩,
      (digits?_cons plain).2 ⟨d, ds, read, reads, rfl⟩⟩
    · have after := (noDoubled_cons '_' cs).2 ⟨fun _ => inner.first, inner.single⟩
      exact (noDoubled_cons c _).2 ⟨fun same => absurd same plain, after⟩
    · rw [List.getLast?_cons_of_ne_nil (List.cons_ne_nil _ _), List.getLast?_cons_of_ne_nil filled]
      exact inner.last

theorem run_of_separated {radix : Nat} (small : radix ≤ 16) :
    ∀ {cs : List Char} {ds : List Nat}, cs ≠ [] → Separated cs → digits? radix cs = some ds →
      Run radix cs ds
  | [], _, filled, _, _ => absurd rfl filled
  | c :: cs, ds, _, h, read => by
    have plain : c ≠ '_' := by simpa using h.first
    obtain ⟨d, rest, digit, reads, rfl⟩ := (digits?_cons plain).1 read
    have digit := (digit?_eq_some small).1 digit
    match cs with
    | [] =>
      obtain rfl : rest = [] := by simpa [digits?] using reads.symm
      exact .last digit
    | c' :: cs =>
      have single := (noDoubled_cons c' cs).1 ((noDoubled_cons c _).1 h.single).2
      have last := h.last
      rw [List.getLast?_cons_of_ne_nil (List.cons_ne_nil _ _)] at last
      by_cases underscore : c' = '_'
      · subst underscore
        have filled : cs ≠ [] := by
          rintro rfl
          exact last rfl
        rw [List.getLast?_cons_of_ne_nil filled] at last
        exact .separated digit
          (run_of_separated small filled ⟨single.2, last, single.1 rfl⟩ reads)
      · have inner : Separated (c' :: cs) :=
          ⟨((noDoubled_cons c _).1 h.single).2, last, by simpa using underscore⟩
        exact .next digit (run_of_separated small (List.cons_ne_nil _ _) inner reads)

/-- **A run is a body in which underscores stand between digits alone.** -/
theorem run_iff {radix : Nat} (small : radix ≤ 16) {cs : List Char} {ds : List Nat} :
    Run radix cs ds ↔ cs ≠ [] ∧ Separated cs ∧ digits? radix cs = some ds :=
  ⟨Run.separated_digits small, fun ⟨filled, h, read⟩ => run_of_separated small filled h read⟩

theorem ofDigits_eq (radix : Nat) (ds : List Nat) :
    ofDigits radix ds = Nat.ofDigits radix ds.reverse := by
  rw [Nat.ofDigits_eq_foldr, List.foldr_reverse, ofDigits]
  congr 1
  funext n d
  exact (Nat.add_comm _ _).trans (congrArg (d + ·) (Nat.mul_comm _ _))

/-- The value of a body is told by its digits, of which there is at least one. -/
theorem Body.value?_eq_some {body : Body} {n : Nat} :
    body.value? = some n ↔
      body.separated = true ∧ ∃ ds, ds ≠ [] ∧ digits? body.radix body.digits = some ds ∧
        n = Nat.ofDigits body.radix ds.reverse := by
  rw [Body.value?, ← digits?]
  split
  · next separated =>
    cases digits? body.radix body.digits with
    | none => simp
    | some ds => cases ds <;> simp [separated, ofDigits_eq, eq_comm]
  · next unseparated => simp [unseparated]

theorem digits?_ne_nil {radix : Nat} {cs : List Char} {ds : List Nat} (h : Separated cs)
    (read : digits? radix cs = some ds) : ds ≠ [] ↔ cs ≠ [] := by
  cases cs with
  | nil =>
    obtain rfl : ds = [] := by simpa [digits?] using read.symm
    simp
  | cons c cs =>
    obtain ⟨d, rest, -, -, rfl⟩ := (digits?_cons (by simpa using h.first)).1 read
    simp

/-- Without a marker a body is a run. -/
theorem value?_plain {cs : List Char} {radix n : Nat} (small : radix ≤ 16) :
    Body.value? ⟨radix, false, cs⟩ = some n ↔
      ∃ ds, Run radix cs ds ∧ n = Nat.ofDigits radix ds.reverse := by
  have separated : Body.separated ⟨radix, false, cs⟩ = true ↔ Separated cs := by
    simp only [Body.separated, Bool.and_eq_true, Bool.false_or, bne_iff_ne]
    exact ⟨fun ⟨⟨single, last⟩, first⟩ => ⟨single, last, first⟩,
      fun ⟨single, last, first⟩ => ⟨⟨single, last⟩, first⟩⟩
  rw [Body.value?_eq_some, separated]
  constructor
  · rintro ⟨h, ds, some, read, rfl⟩
    exact ⟨ds, (run_iff small).2 ⟨(digits?_ne_nil h read).1 some, h, read⟩, rfl⟩
  · rintro ⟨ds, run, rfl⟩
    obtain ⟨filled, h, read⟩ := (run_iff small).1 run
    exact ⟨h, ds, (digits?_ne_nil h read).2 filled, read, rfl⟩

/-- An underscore behind a marker is passed over. -/
theorem value?_underscore (radix : Nat) (cs : List Char) :
    Body.value? ⟨radix, true, '_' :: cs⟩ = Body.value? ⟨radix, false, cs⟩ := by
  cases cs with
  | nil => rfl
  | cons c cs =>
    have separated : Body.separated ⟨radix, true, '_' :: c :: cs⟩ =
        Body.separated ⟨radix, false, c :: cs⟩ := by
      rw [Bool.eq_iff_iff]
      simp only [Body.separated, Bool.and_eq_true, noDoubled_cons '_', List.getLast?_cons_cons,
        Bool.true_or, Bool.false_or, bne_iff_ne]
      tauto
    rw [Body.value?, separated]
    rfl

/-- Behind a marker one underscore may stand first. -/
theorem value?_marked {cs : List Char} {radix n : Nat} (small : radix ≤ 16) :
    Body.value? ⟨radix, true, cs⟩ = some n ↔
      ∃ ds, MarkedRun radix cs ds ∧ n = Nat.ofDigits radix ds.reverse := by
  by_cases underscore : cs.head? = some '_'
  · obtain ⟨cs, rfl⟩ := List.head?_eq_some_iff.1 underscore
    rw [value?_underscore, value?_plain small]
    constructor
    · rintro ⟨ds, run, rfl⟩
      exact ⟨ds, .separated run, rfl⟩
    · rintro ⟨ds, run, rfl⟩
      cases run with
      | next run => exact absurd rfl (run.separated_digits small).2.1.first
      | separated run => exact ⟨ds, run, rfl⟩
  · have same : Body.value? ⟨radix, true, cs⟩ = Body.value? ⟨radix, false, cs⟩ := by
      simp [Body.value?, Body.separated, underscore]
    rw [same, value?_plain small]
    constructor
    · rintro ⟨ds, run, rfl⟩
      exact ⟨ds, .next run, rfl⟩
    · rintro ⟨ds, run, rfl⟩
      cases run with
      | next run => exact ⟨ds, run, rfl⟩
      | separated run => exact absurd rfl underscore

/-! ## The reader -/

/-- Octal digits behind a leading zero begin with one of them or with an underscore, and so with no
letter of another marker. -/
theorem ofUnsigned_leadingZero {cs : List Char} {ds : List Nat} (h : MarkedRun 8 cs ds) :
    Body.ofUnsigned ('0' :: cs) = ⟨8, true, cs⟩ := by
  obtain ⟨c, cs, rfl, first⟩ : ∃ c rest, cs = c :: rest ∧ (c = '_' ∨ ∃ d, DigitOf 8 c d) := by
    cases h with
    | separated => exact ⟨_, _, rfl, .inl rfl⟩
    | next run =>
      obtain ⟨c, rest, d, same, digit⟩ := run.head
      exact ⟨c, rest, same, .inr ⟨d, digit⟩⟩
  have letters : c ∉ ['x', 'X', 'b', 'B', 'o', 'O'] := by
    intro among
    simp only [List.mem_cons, List.not_mem_nil, or_false] at among
    obtain ⟨plain, none⟩ : c ≠ '_' ∧ digit? 8 c = none := by
      rcases among with rfl | rfl | rfl | rfl | rfl | rfl <;> decide
    rcases first with underscore | ⟨d, digit⟩
    · exact plain underscore
    · rw [(digit?_eq_some (by decide)).2 digit] at none
      cases none
  simp only [List.mem_cons, List.not_mem_nil, or_false, not_or] at letters
  simp [Body.ofUnsigned, letters]

theorem ofUnsigned_plain {cs : List Char} (h : cs.head? ≠ some '0') :
    Body.ofUnsigned cs = ⟨10, false, cs⟩ := by
  unfold Body.ofUnsigned
  split
  · exact absurd rfl h
  · rfl

/-- **The reader accepts just the literals**, each with the number it denotes. -/
theorem magnitude?_eq_some {cs : List Char} {n : Nat} : magnitude? cs = some n ↔ Denotes cs n := by
  constructor
  · intro h
    unfold magnitude? Body.ofUnsigned at h
    split at h
    · split at h
      all_goals
        obtain ⟨ds, digits, rfl⟩ := (value?_marked (by decide)).1 h
      · exact .hexadecimal (.inl rfl) digits
      · exact .hexadecimal (.inr rfl) digits
      · exact .binary (.inl rfl) digits
      · exact .binary (.inr rfl) digits
      · exact .octal (.inl rfl) digits
      · exact .octal (.inr rfl) digits
      · exact .leadingZero digits
    · next unmarked =>
      by_cases zero : cs.head? = some '0'
      · obtain ⟨rest, rfl⟩ := List.head?_eq_some_iff.1 zero
        cases rest with
        | nil =>
          obtain rfl : 0 = n := Option.some.inj h
          exact .zero
        | cons c rest => exact absurd rfl (unmarked c rest)
      · obtain ⟨ds, digits, rfl⟩ := (value?_plain (by decide)).1 h
        exact .decimal digits zero
  · intro h
    cases h with
    | hexadecimal letter digits =>
      rcases letter with rfl | rfl <;> exact (value?_marked (by decide)).2 ⟨_, digits, rfl⟩
    | binary letter digits =>
      rcases letter with rfl | rfl <;> exact (value?_marked (by decide)).2 ⟨_, digits, rfl⟩
    | octal letter digits =>
      rcases letter with rfl | rfl <;> exact (value?_marked (by decide)).2 ⟨_, digits, rfl⟩
    | leadingZero digits =>
      rw [magnitude?, ofUnsigned_leadingZero digits]
      exact (value?_marked (by decide)).2 ⟨_, digits, rfl⟩
    | zero => rfl
    | decimal digits plain =>
      rw [magnitude?, ofUnsigned_plain plain]
      exact (value?_plain (by decide)).2 ⟨_, digits, rfl⟩

/-! ## Signs -/

/-- A literal begins with a decimal digit. -/
theorem Denotes.head {cs : List Char} {n : Nat} (h : Denotes cs n) :
    ∃ c rest d, cs = c :: rest ∧ DigitOf 10 c d := by
  have zero : DigitOf 10 '0' 0 := ⟨by decide, .inl rfl⟩
  cases h with
  | hexadecimal | binary | octal | leadingZero | zero => exact ⟨_, _, 0, rfl, zero⟩
  | decimal digits => exact digits.head

/-- No digit is a sign. -/
theorem Denotes.unsigned {cs : List Char} {n : Nat} (h : Denotes cs n) :
    cs.head? ≠ some '+' ∧ cs.head? ≠ some '-' := by
  obtain ⟨c, rest, d, rfl, digit⟩ := h.head
  have read := (digit?_eq_some (by decide)).2 digit
  constructor
  · rintro ⟨⟩
    cases read
  · rintro ⟨⟩
    cases read

/-- The number that a literal with an optional sign denotes. -/
def signed? (cs : List Char) : Option Int :=
  let (negative, cs) := splitSign cs
  (magnitude? cs).map fun m : Nat => if negative then -(m : Int) else m

theorem signed?_plus (cs : List Char) : signed? ('+' :: cs) = (magnitude? cs).map Int.ofNat := rfl

theorem signed?_minus (cs : List Char) :
    signed? ('-' :: cs) = (magnitude? cs).map fun m : Nat => -(m : Int) := rfl

theorem signed?_plain {cs : List Char} (plus : cs.head? ≠ some '+') (minus : cs.head? ≠ some '-') :
    signed? cs = (magnitude? cs).map Int.ofNat := by
  have unsigned : splitSign cs = (false, cs) := by
    unfold splitSign
    split
    · exact absurd rfl minus
    · exact absurd rfl plus
    · rfl
  rw [signed?, unsigned]
  rfl

/-- **The reader of signed literals accepts just these**, each with the number it denotes. -/
theorem signed?_eq_some {cs : List Char} {n : Int} : signed? cs = some n ↔ SignedDenotes cs n := by
  constructor
  · intro h
    by_cases plus : cs.head? = some '+'
    · obtain ⟨cs, rfl⟩ := List.head?_eq_some_iff.1 plus
      obtain ⟨m, read, rfl⟩ := Option.map_eq_some_iff.1 h
      exact .plus (magnitude?_eq_some.1 read)
    by_cases minus : cs.head? = some '-'
    · obtain ⟨cs, rfl⟩ := List.head?_eq_some_iff.1 minus
      obtain ⟨m, read, rfl⟩ := Option.map_eq_some_iff.1 h
      exact .minus (magnitude?_eq_some.1 read)
    · rw [signed?_plain plus minus] at h
      obtain ⟨m, read, rfl⟩ := Option.map_eq_some_iff.1 h
      exact .plain (magnitude?_eq_some.1 read)
  · intro h
    cases h with
    | plus literal =>
      rw [signed?_plus, magnitude?_eq_some.2 literal]
      rfl
    | minus literal =>
      rw [signed?_minus, magnitude?_eq_some.2 literal]
      rfl
    | plain literal =>
      rw [signed?_plain literal.unsigned.1 literal.unsigned.2, magnitude?_eq_some.2 literal]
      rfl

end Recast.IntegerLiteral
