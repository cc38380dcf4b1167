import Recast.Path.Basic
import Recast.Proofs.Grammar
import Recast.Proofs.Ranges

/-!
Integer literals in machine words. A literal is read exactly (`Reads`): the result is the number it
denotes, if the wanted bits hold that, and else an error that carries the text. Reading with words
of 64 bits gives the same result, for a digit that does not fit anymore is noticed before it is
added, and the difference that negates a word wraps to the right number at the least one too
(`signedWord_eq`, `unsignedWord_eq`).
-/

namespace Recast

namespace IntegerLiteral

/-! ## Results -/

/-- The result is the number that the text denotes, if it fits, and else an error with the text. -/
structure Reads {α : Type} (text : String) (denotes fits : α → Prop)
    (result : Except LiteralError α) : Prop where
  ok : ∀ n, result = .ok n ↔ denotes n ∧ fits n
  outOfRange : result = .error (.outOfRange text) ↔ ∃ n, denotes n ∧ ¬fits n
  malformed : result = .error (.malformed text) ↔ ¬∃ n, denotes n
  carries : ∀ error, result = .error error → error = .outOfRange text ∨ error = .malformed text

/-- What is made of the number that a text was read as. -/
def checked {α : Type} (text : String) (fits : α → Prop) [DecidablePred fits] :
    Option α → Except LiteralError α
  | none => .error (.malformed text)
  | some n => if fits n then .ok n else .error (.outOfRange text)

theorem reads_checked {α : Type} {text : String} {denotes fits : α → Prop} [DecidablePred fits]
    {read : Option α} (h : ∀ n, read = some n ↔ denotes n) :
    Reads text denotes fits (checked text fits read) := by
  cases read with
  | none =>
    have silent : ¬∃ n, denotes n := fun ⟨n, literal⟩ => nomatch (h n).2 literal
    refine ⟨fun n => ⟨nofun, fun ⟨literal, _⟩ => absurd ⟨n, literal⟩ silent⟩,
      ⟨nofun, fun ⟨n, literal, _⟩ => absurd ⟨n, literal⟩ silent⟩,
      ⟨fun _ => silent, fun _ => rfl⟩, ?_⟩
    rintro error ⟨⟩
    exact .inr rfl
  | some m =>
    have literal : denotes m := (h m).1 rfl
    have only {n : α} (other : denotes n) : m = n := Option.some.inj ((h n).2 other)
    by_cases fitting : fits m
    · rw [checked, if_pos fitting]
      refine ⟨fun n => ⟨?_, ?_⟩, ⟨nofun, ?_⟩, ⟨nofun, fun silent => absurd ⟨m, literal⟩ silent⟩,
        nofun⟩
      · rintro ⟨⟩
        exact ⟨literal, fitting⟩
      · rintro ⟨other, -⟩
        rw [only other]
      · rintro ⟨n, other, outside⟩
        exact absurd (only other ▸ fitting) outside
    · rw [checked, if_neg fitting]
      refine ⟨fun n => ⟨nofun, ?_⟩, ⟨fun _ => ⟨m, literal, fitting⟩, fun _ => rfl⟩,
        ⟨nofun, fun silent => absurd ⟨m, literal⟩ silent⟩, ?_⟩
      · rintro ⟨other, inside⟩
        exact absurd (only other ▸ inside) fitting
      · rintro error ⟨⟩
        exact .inl rfl

theorem parseSigned_eq (bits : Nat) (text : String) :
    parseSigned bits text =
      checked text (fun n : Int => -2 ^ (bits - 1) ≤ n ∧ n < 2 ^ (bits - 1))
        (signed? text.toList) := by
  unfold parseSigned signed?
  obtain ⟨negative, cs⟩ := splitSign text.toList
  cases h : magnitude? cs with
  | none => simp only [h, Option.map_none, checked]
  | some m => simp only [h, Option.map_some, checked, natCast_one_shiftLeft]

theorem parseUnsigned_eq (bits : Nat) (text : String) :
    parseUnsigned bits text = checked text (· < 2 ^ bits) (magnitude? text.toList) := by
  unfold parseUnsigned
  cases magnitude? text.toList with
  | none => rfl
  | some m => simp only [checked, Nat.one_shiftLeft]

theorem reads_parseSigned (bits : Nat) (text : String) :
    Reads text (SignedDenotes text.toList) (fun n => -2 ^ (bits - 1) ≤ n ∧ n < 2 ^ (bits - 1))
      (parseSigned bits text) := by
  rw [parseSigned_eq]
  exact reads_checked fun n => signed?_eq_some

theorem reads_parseUnsigned (bits : Nat) (text : String) :
    Reads text (Denotes text.toList) (fun n => n < 2 ^ bits) (parseUnsigned bits text) := by
  rw [parseUnsigned_eq]
  exact reads_checked fun n => magnitude?_eq_some

/-! ## Words -/

/-- One more digit, if the word holds the number with it. -/
def pushDigit (radix : Nat) (word : BitVec 64) (digit : Nat) : Option (BitVec 64) :=
  let shifted := word * BitVec.ofNat 64 radix
  if word.umulOverflow (BitVec.ofNat 64 radix) then none
  else if shifted.uaddOverflow (BitVec.ofNat 64 digit) then none
  else some (shifted + BitVec.ofNat 64 digit)

def wordOfDigits (radix : Nat) (digits : List Nat) : Option (BitVec 64) :=
  digits.foldlM (pushDigit radix) 0#64

/-- The word that a body denotes. -/
def Body.word (text : String) (body : Body) : Except LiteralError (BitVec 64) :=
  if body.separated then
    match digits? body.radix body.digits with
    | none | some [] => .error (.malformed text)
    | some digits =>
      match wordOfDigits body.radix digits with
      | none => .error (.outOfRange text)
      | some word => .ok word
  else .error (.malformed text)

/-- A signed literal, read in words. A negative one is a difference that may wrap. -/
def signedWord (bits : Nat) (text : String) : Except LiteralError (BitVec 64) :=
  let (negative, cs) := splitSign text.toList
  match (Body.ofUnsigned cs).word text with
  | .error error => .error error
  | .ok m =>
    let limit := 1#64 <<< (bits - 1)
    if negative then
      if limit < m then .error (.outOfRange text) else .ok (0#64 - m)
    else if limit ≤ m then .error (.outOfRange text)
    else .ok m

/-- An unsigned literal, read in words. -/
def unsignedWord (bits : Nat) (text : String) : Except LiteralError (BitVec 64) :=
  match (Body.ofUnsigned text.toList).word text with
  | .error error => .error error
  | .ok m => if bits < 64 ∧ 1#64 <<< bits ≤ m then .error (.outOfRange text) else .ok m

theorem toNat_word {n : Nat} (h : n < 2 ^ 64) : (BitVec.ofNat 64 n).toNat = n := by
  rw [BitVec.toNat_ofNat, Nat.mod_eq_of_lt h]

/-- The number as a word of 64 bits, if it is one. -/
def word? (n : Nat) : Option (BitVec 64) := if n < 2 ^ 64 then some (BitVec.ofNat 64 n) else none

theorem word?_toNat (word : BitVec 64) : word? word.toNat = some word := by
  rw [word?, if_pos word.isLt, BitVec.ofNat_toNat, BitVec.setWidth_eq]

theorem pushDigit_eq {radix : Nat} (small : radix ≤ 16) (word : BitVec 64) {digit : Nat}
    (inside : digit < radix) :
    pushDigit radix word digit = word? (word.toNat * radix + digit) := by
  have digit_lt : digit < 2 ^ 64 := by omega
  have radix_lt : radix < 2 ^ 64 := by omega
  have digit_toNat : (BitVec.ofNat 64 digit).toNat = digit := toNat_word digit_lt
  have radix_toNat : (BitVec.ofNat 64 radix).toNat = radix := toNat_word radix_lt
  by_cases product : word.toNat * radix < 2 ^ 64
  · have shifted : (word * BitVec.ofNat 64 radix).toNat = word.toNat * radix := by
      rw [BitVec.toNat_mul, radix_toNat, Nat.mod_eq_of_lt product]
    have kept : word.umulOverflow (BitVec.ofNat 64 radix) = false := by
      simpa [BitVec.umulOverflow, radix_toNat] using product
    by_cases sum : word.toNat * radix + digit < 2 ^ 64
    · have added : (word * BitVec.ofNat 64 radix).uaddOverflow (BitVec.ofNat 64 digit) = false := by
        simpa [BitVec.uaddOverflow, shifted, digit_toNat] using sum
      have result : (word * BitVec.ofNat 64 radix + BitVec.ofNat 64 digit).toNat =
          word.toNat * radix + digit := by
        rw [BitVec.toNat_add, shifted, digit_toNat, Nat.mod_eq_of_lt sum]
      rw [pushDigit, kept, added, ← result, word?_toNat]
      rfl
    · have added : (word * BitVec.ofNat 64 radix).uaddOverflow (BitVec.ofNat 64 digit) = true := by
        simpa [BitVec.uaddOverflow, shifted, digit_toNat] using sum
      rw [pushDigit, kept, added, word?, if_neg sum]
      rfl
  · have lost : word.umulOverflow (BitVec.ofNat 64 radix) = true := by
      simpa [BitVec.umulOverflow, radix_toNat] using product
    have sum : ¬word.toNat * radix + digit < 2 ^ 64 := by omega
    rw [pushDigit, lost, word?, if_neg sum]
    rfl

/-- More digits make no number smaller. -/
theorem le_foldl_digits {radix : Nat} (positive : 0 < radix) (digits : List Nat) (n : Nat) :
    n ≤ digits.foldl (fun n digit => n * radix + digit) n := by
  induction digits generalizing n with
  | nil => exact Nat.le_refl n
  | cons d ds ih =>
    calc n ≤ n * radix := Nat.le_mul_of_pos_right n positive
      _ ≤ n * radix + d := Nat.le_add_right _ _
      _ ≤ _ := ih _

/-- **Digits are read into a word just as long as it holds their number.** -/
theorem foldlM_pushDigit {radix : Nat} (small : radix ≤ 16) {digits : List Nat}
    (inside : ∀ d ∈ digits, d < radix) (word : BitVec 64) :
    digits.foldlM (pushDigit radix) word =
      word? (digits.foldl (fun n digit => n * radix + digit) word.toNat) := by
  induction digits generalizing word with
  | nil => exact (word?_toNat word).symm
  | cons d ds ih =>
    obtain ⟨first, rest⟩ := List.forall_mem_cons.1 inside
    rw [List.foldlM_cons, pushDigit_eq small word first, List.foldl_cons]
    by_cases fits : word.toNat * radix + d < 2 ^ 64
    · rw [word?, if_pos fits, Option.bind_eq_bind, Option.bind_some, ih rest,
        toNat_word fits]
    · have larger := le_foldl_digits (Nat.zero_lt_of_lt first) ds (word.toNat * radix + d)
      rw [word?, if_neg fits, word?, if_neg (by omega)]
      rfl

theorem digits?_lt {radix : Nat} {cs : List Char} {ds : List Nat}
    (small : radix ≤ 16) (read : digits? radix cs = some ds) : ∀ d ∈ ds, d < radix := by
  induction cs generalizing ds with
  | nil =>
    obtain rfl : ds = [] := by simpa [digits?] using read.symm
    simp
  | cons c cs ih =>
    by_cases underscore : c = '_'
    · subst underscore
      exact ih read
    · obtain ⟨d, rest, digit, reads, rfl⟩ := (digits?_cons underscore).1 read
      exact List.forall_mem_cons.2 ⟨((digit?_eq_some small).1 digit).1, ih reads⟩

theorem Body.word_eq {body : Body} (small : body.radix ≤ 16) (text : String) :
    body.word text =
      match body.value? with
      | none => .error (.malformed text)
      | some n => match word? n with
        | none => .error (.outOfRange text)
        | some word => .ok word := by
  rw [Body.word, Body.value?, ← digits?]
  split
  · cases read : digits? body.radix body.digits with
    | none => rfl
    | some ds =>
      cases ds with
      | nil => rfl
      | cons d ds =>
        have words := foldlM_pushDigit small (digits?_lt small read) 0#64
        rw [BitVec.toNat_ofNat, Nat.zero_mod] at words
        simp only [wordOfDigits, words, ofDigits]
  · rfl

theorem radix_ofUnsigned (cs : List Char) : (Body.ofUnsigned cs).radix ≤ 16 := by
  unfold Body.ofUnsigned
  split
  · split <;> exact Nat.le_of_ble_eq_true rfl
  · exact Nat.le_of_ble_eq_true rfl

theorem toNat_limit {k : Nat} (h : k < 64) : (1#64 <<< k).toNat = 2 ^ k := by
  have bound : 2 ^ k < 2 ^ 64 := Nat.pow_lt_pow_right (by decide) h
  rw [BitVec.toNat_shiftLeft, toNat_word (by decide), Nat.one_shiftLeft, Nat.mod_eq_of_lt bound]

/-- **Unsigned literals are read alike in words.** -/
theorem unsignedWord_eq {bits : Nat} (small : bits ≤ 64) (text : String) :
    (unsignedWord bits text).map BitVec.toNat = parseUnsigned bits text := by
  rw [unsignedWord, Body.word_eq (radix_ofUnsigned _), parseUnsigned, magnitude?]
  cases (Body.ofUnsigned text.toList).value? with
  | none => rfl
  | some n =>
    have limit_le : 2 ^ bits ≤ 2 ^ 64 := Nat.pow_le_pow_right (by decide) small
    rw [Nat.one_shiftLeft]
    by_cases word : n < 2 ^ 64
    · have outside : (bits < 64 ∧ 1#64 <<< bits ≤ BitVec.ofNat 64 n) ↔ ¬n < 2 ^ bits := by
        rw [BitVec.le_def, toNat_word word]
        rcases Nat.lt_or_eq_of_le small with narrow | rfl
        · rw [toNat_limit narrow]
          omega
        · simpa using word
      simp only [word?, if_pos word, outside]
      by_cases fits : n < 2 ^ bits
      · rw [if_neg (not_not_intro fits), if_pos fits, Except.map, toNat_word word]
      · rw [if_pos fits, if_neg fits]
        rfl
    · have outside : ¬n < 2 ^ bits := by omega
      simp only [word?, if_neg word, if_neg outside]
      rfl

theorem toInt_word {n : Nat} (h : n < 2 ^ 63) : (BitVec.ofNat 64 n).toInt = n := by
  have number : (BitVec.ofNat 64 n).toNat = n := toNat_word (by omega)
  have bound : 2 * (BitVec.ofNat 64 n).toNat < 2 ^ 64 := by omega
  rw [BitVec.toInt_eq_toNat_of_lt bound, number]

/-- The difference is the negated number at `2 ^ 63` too, which no signed word holds itself. -/
theorem toInt_zero_sub {n : Nat} (h : n ≤ 2 ^ 63) : (0#64 - BitVec.ofNat 64 n).toInt = -n := by
  have wrapped : 0#64 - BitVec.ofNat 64 n = BitVec.ofInt 64 (-n) := by
    rw [BitVec.ofInt_neg, BitVec.ofInt_natCast, BitVec.zero_sub]
  rw [wrapped, BitVec.toInt_ofInt_eq_self (by decide) (by omega) (by omega)]

/-- **Signed literals are read alike in words.** -/
theorem signedWord_eq {bits : Nat} (small : bits ≤ 64) (text : String) :
    (signedWord bits text).map BitVec.toInt = parseSigned bits text := by
  unfold signedWord parseSigned
  obtain ⟨negative, cs⟩ := splitSign text.toList
  simp only [Body.word_eq (radix_ofUnsigned _), magnitude?]
  cases (Body.ofUnsigned cs).value? with
  | none => rfl
  | some n =>
    have limit_le : 2 ^ (bits - 1) ≤ 2 ^ 63 := Nat.pow_le_pow_right (by decide) (by omega)
    have limit_toNat : (1#64 <<< (bits - 1)).toNat = 2 ^ (bits - 1) := toNat_limit (by omega)
    have limit_pos : 0 < 2 ^ (bits - 1) := Nat.two_pow_pos _
    rw [Nat.one_shiftLeft]
    generalize 2 ^ (bits - 1) = limit at limit_le limit_toNat limit_pos ⊢
    by_cases word : n < 2 ^ 64
    · simp only [word?, if_pos word, BitVec.lt_def, BitVec.le_def, limit_toNat, toNat_word word]
      cases negative with
      | true =>
        have inside : -(limit : Int) ≤ -n ∧ -(n : Int) < limit ↔ ¬limit < n := by omega
        simp only [if_true, inside]
        by_cases outside : limit < n
        · rw [if_pos outside, if_neg (not_not_intro outside)]
          rfl
        · rw [if_neg outside, if_pos outside, Except.map, toInt_zero_sub (by omega)]
      | false =>
        have inside : -(limit : Int) ≤ n ∧ (n : Int) < limit ↔ ¬limit ≤ n := by omega
        simp only [Bool.false_eq_true, if_false, inside]
        by_cases outside : limit ≤ n
        · rw [if_pos outside, if_neg (not_not_intro outside)]
          rfl
        · rw [if_neg outside, if_pos outside, Except.map, toInt_word (by omega)]
    · have outside : ¬(-(limit : Int) ≤ (if negative then -(n : Int) else n) ∧
          (if negative then -(n : Int) else n) < limit) := by
        split <;> omega
      simp only [word?, if_neg word, if_neg outside]
      rfl

/-! ## Cuts -/

/-- What is left of a text behind characters of one byte each. A cut there, counted in bytes, is
never inside a character. -/
inductive AsciiCut : List Char → List Char → Prop
  | here (cs : List Char) : AsciiCut cs cs
  | behind {c : Char} {cs rest : List Char} (byte : c.utf8Size = 1) (cut : AsciiCut cs rest) :
      AsciiCut (c :: cs) rest

theorem asciiCut_splitSign (cs : List Char) : AsciiCut cs (splitSign cs).2 := by
  unfold splitSign
  split
  · exact .behind rfl (.here _)
  · exact .behind rfl (.here _)
  · exact .here _

theorem asciiCut_ofUnsigned (cs : List Char) : AsciiCut cs (Body.ofUnsigned cs).digits := by
  unfold Body.ofUnsigned
  split
  · split
    · exact .behind rfl (.behind rfl (.here _))
    · exact .behind rfl (.behind rfl (.here _))
    · exact .behind rfl (.behind rfl (.here _))
    · exact .behind rfl (.behind rfl (.here _))
    · exact .behind rfl (.behind rfl (.here _))
    · exact .behind rfl (.behind rfl (.here _))
    · exact .behind rfl (.here _)
  · exact .here _

/-! ## Exactness -/

/-- **Integer literals are read exactly.** A text is read as the number it denotes, if the bits hold
that. It is out of range if it denotes another number, and malformed if it denotes none. With words
of 64 bits, checked digit by digit, the result is the same for a text of any length, and texts are
only cut behind characters of one byte. -/
theorem parse_exact {bits : Nat} (small : bits ≤ 64) (text : String) :
    Reads text (SignedDenotes text.toList) (fun n => -2 ^ (bits - 1) ≤ n ∧ n < 2 ^ (bits - 1))
        (parseSigned bits text) ∧
      Reads text (Denotes text.toList) (fun n => n < 2 ^ bits) (parseUnsigned bits text) ∧
      (signedWord bits text).map BitVec.toInt = parseSigned bits text ∧
      (unsignedWord bits text).map BitVec.toNat = parseUnsigned bits text ∧
      AsciiCut text.toList (splitSign text.toList).2 ∧
      ∀ cs, AsciiCut cs (Body.ofUnsigned cs).digits :=
  ⟨reads_parseSigned bits text, reads_parseUnsigned bits text, signedWord_eq small text,
    unsignedWord_eq small text, asciiCut_splitSign _, asciiCut_ofUnsigned⟩

/-- The least number of eight bits, with underscores behind the marker and between the digits. -/
theorem parse_exact_least :
    8 ≤ 64 ∧ SignedDenotes "-0x_8_0".toList (-128) ∧
      parseSigned 8 "-0x_8_0" = .ok (-128) ∧
      parseUnsigned 8 "-0x_8_0" = .error (.malformed "-0x_8_0") := by
  have eight : DigitOf 16 '8' 8 := ⟨by decide, .inl rfl⟩
  have zero : DigitOf 16 '0' 0 := ⟨by decide, .inl rfl⟩
  have literal : SignedDenotes "-0x_8_0".toList (-128) :=
    .minus (.hexadecimal (.inl rfl) (.separated (.separated eight (.last zero))))
  obtain ⟨signed, unsigned, -⟩ := parse_exact (by decide : 8 ≤ 64) "-0x_8_0"
  refine ⟨by decide, literal, (signed.ok _).2 ⟨literal, by decide⟩, unsigned.malformed.2 ?_⟩
  rintro ⟨n, plain⟩
  exact plain.unsigned.2 rfl

end IntegerLiteral

/-- **A segment stands for a position** if it is a literal of 64 bits, and for that number. -/
theorem Segment.index?_eq_some {s : Segment} {n : Int} :
    s.index? = some n ↔
      IntegerLiteral.SignedDenotes s.text.toList n ∧ -2 ^ 63 ≤ n ∧ n < 2 ^ 63 := by
  rw [index?, ← (IntegerLiteral.reads_parseSigned 64 s.text).ok]
  cases IntegerLiteral.parseSigned 64 s.text <;> simp [Except.toOption]

end Recast
