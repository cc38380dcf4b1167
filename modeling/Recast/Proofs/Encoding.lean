import Mathlib.Data.List.Basic
import Mathlib.Tactic.IntervalCases
import Recast.Proofs.ByteOrder

/-!
UTF-8 in both directions. A character is encoded as a first byte and bytes that complete it
(`exists_row`), and whatever completes a first byte makes a character with it
(`utf8EncodeChar_of_completes`). So a text is decoded from its encoding (`utf8Decode_flatMap`). Any
other bytes are read as `Decodes` says: the longest beginning of a character that breaks off, or a
byte that begins none, is replaced, and there is one way to do so (`decodes_iff`).
-/

namespace Recast.Text

/-! ## First bytes and what completes them -/

theorem toNat_ofNat {n : Nat} (h : n < 0xD800 ∨ 0xDFFF < n ∧ n < 0x110000) :
    (Char.ofNat n).toNat = n := by
  rw [Char.ofNat, dif_pos h]
  rfl

@[simp]
theorem toNat_continuation (n : Nat) : (continuation n).toNat = 0x80 + n % 0x40 := by
  simp only [continuation, BitVec.toNat_ofNat]
  omega

theorem toNat_byte {n : Nat} (h : n < 0x100) : (BitVec.ofNat 8 n).toNat = n := by
  rw [BitVec.toNat_ofNat]
  exact Nat.mod_eq_of_lt h

theorem eq_continuation {b : Byte} {n : Nat} (low : 0x80 ≤ b.toNat) (high : b.toNat ≤ 0xBF)
    (same : b.toNat % 0x40 = n % 0x40) : continuation n = b := by
  rw [← BitVec.toNat_inj, toNat_continuation]
  omega

theorem eq_ofNat {b : Byte} {n : Nat} (same : b.toNat = n) : BitVec.ofNat 8 n = b := by
  rw [← BitVec.toNat_inj, BitVec.toNat_ofNat, ← same]
  exact Nat.mod_eq_of_lt b.isLt

/-- The first bytes by how many follow. The range of the next byte is narrower at the ends. -/
inductive Lead.Row : Nat → Lead → Prop
  | one {x : Nat} (range : x < 0x80) : Row x ⟨x, 0, 0x80, 0xBF⟩
  | two {x : Nat} (range : 2 ≤ x ∧ x < 0x20) : Row (0xC0 + x) ⟨x, 1, 0x80, 0xBF⟩
  | three {x : Nat} (range : x < 0x10) :
    Row (0xE0 + x) ⟨x, 2, if x = 0 then 0xA0 else 0x80, if x = 0xD then 0x9F else 0xBF⟩
  | four {x : Nat} (range : x < 5) :
    Row (0xF0 + x) ⟨x, 3, if x = 0 then 0x90 else 0x80, if x = 4 then 0x8F else 0xBF⟩

theorem Lead.row_iff {b : Nat} {lead : Lead} : Lead.ofByte? b = some lead ↔ Row b lead := by
  constructor
  · intro h
    unfold ofByte? at h
    split_ifs at h with h1 h2 h3 h4 h5 h6 h7 h8 h9 <;> obtain rfl := Option.some.inj h
    · exact .one h1
    · obtain ⟨x, rfl⟩ : ∃ x, b = 0xC0 + x := ⟨b - 0xC0, by omega⟩
      rw [Nat.add_sub_cancel_left]
      exact .two (by omega)
    · simpa [h4] using Row.three (x := 0) (by omega)
    · simpa [h5] using Row.three (x := 0xD) (by omega)
    · obtain ⟨x, rfl⟩ : ∃ x, b = 0xE0 + x := ⟨b - 0xE0, by omega⟩
      have row := Row.three (x := x) (by omega)
      rw [if_neg (by omega), if_neg (by omega)] at row
      rwa [Nat.add_sub_cancel_left]
    · simpa [h7] using Row.four (x := 0) (by omega)
    · obtain ⟨x, rfl⟩ : ∃ x, b = 0xF0 + x := ⟨b - 0xF0, by omega⟩
      have row := Row.four (x := x) (by omega)
      rw [if_neg (by omega), if_neg (by omega)] at row
      rwa [Nat.add_sub_cancel_left]
    · simpa [h9] using Row.four (x := 4) (by omega)
  · intro h
    cases h with
    | one range => rw [ofByte?, if_pos range]
    | two range =>
      rw [ofByte?, if_neg (by omega), if_neg (by omega), if_pos (by omega), Nat.add_sub_cancel_left]
    | @three x range => interval_cases x <;> rfl
    | @four x range => interval_cases x <;> rfl

/-- The bytes that complete a character: so many of them, the first one in a range of its own. -/
def Completes : (more low high : Nat) → List Byte → Prop
  | 0, _, _, tail => tail = []
  | _ + 1, _, _, [] => False
  | more + 1, low, high, b :: tail =>
    (low ≤ b.toNat ∧ b.toNat ≤ high) ∧ Completes more 0x80 0xBF tail

/-- The code point from the share of the first byte and the bytes that follow. -/
def codeOf (bits : Nat) (tail : List Byte) : Nat :=
  tail.foldl (fun n b => n * 0x40 + b.toNat % 0x40) bits

theorem completes_succ {more low high : Nat} {tail : List Byte} :
    Completes (more + 1) low high tail ↔
      ∃ b rest, tail = b :: rest ∧ (low ≤ b.toNat ∧ b.toNat ≤ high) ∧
        Completes more 0x80 0xBF rest := by
  cases tail with
  | nil => simp [Completes]
  | cons b rest => simp [Completes]

/-- A character is encoded as a first byte and what completes it. -/
theorem exists_row (c : Char) : ∃ b tail lead, utf8EncodeChar c = b :: tail ∧
    Lead.Row b.toNat lead ∧ Completes lead.more lead.low lead.high tail ∧
    codeOf lead.bits tail = c.toNat := by
  have bound := toNat_bound c
  have first {n : Nat} {lead : Lead} (small : n < 0x100) (row : Lead.Row n lead) :
      Lead.Row (BitVec.ofNat 8 n).toNat lead := by
    rwa [toNat_byte small]
  unfold utf8EncodeChar
  generalize c.toNat = n at bound
  dsimp only
  split_ifs with one two three
  · exact ⟨_, _, _, rfl, first (by omega) (.one one), rfl, rfl⟩
  · refine ⟨_, _, _, rfl, first (by omega) (.two (by omega)), ?_, ?_⟩
    · simp only [Completes, toNat_continuation, and_true]
      omega
    · simp only [codeOf, List.foldl_cons, List.foldl_nil, toNat_continuation]
      omega
  · refine ⟨_, _, _, rfl, first (by omega) (.three (by omega)), ?_, ?_⟩
    · simp only [Completes, toNat_continuation, and_true]
      split_ifs <;> omega
    · simp only [codeOf, List.foldl_cons, List.foldl_nil, toNat_continuation]
      omega
  · refine ⟨_, _, _, rfl, first (by omega) (.four (by omega)), ?_, ?_⟩
    · simp only [Completes, toNat_continuation, and_true]
      split_ifs <;> omega
    · simp only [codeOf, List.foldl_cons, List.foldl_nil, toNat_continuation]
      omega

/-- Whatever completes a first byte makes a character with it. -/
theorem utf8EncodeChar_of_completes {b : Byte} {lead : Lead} {tail : List Byte}
    (row : Lead.Row b.toNat lead) (completed : Completes lead.more lead.low lead.high tail) :
    utf8EncodeChar (Char.ofNat (codeOf lead.bits tail)) = b :: tail := by
  generalize first : b.toNat = n at row
  cases row with
  | one range =>
    obtain rfl : tail = [] := completed
    have code : (Char.ofNat n).toNat = n := toNat_ofNat (by omega)
    rw [codeOf, List.foldl_nil, utf8EncodeChar, code, if_pos range, eq_ofNat first]
  | @two x range =>
    obtain ⟨y, _, rfl, within, rfl⟩ := completes_succ.1 completed
    dsimp only [codeOf, List.foldl] at within ⊢
    generalize codeEq : x * 0x40 + y.toNat % 0x40 = code
    have known : (Char.ofNat code).toNat = code := toNat_ofNat (by omega)
    rw [utf8EncodeChar, known, if_neg (by omega), if_pos (by omega),
      eq_ofNat (b := b) (by omega), eq_continuation (b := y) within.1 within.2 (by omega)]
  | @three x range =>
    obtain ⟨y, _, rfl, within, completed⟩ := completes_succ.1 completed
    obtain ⟨z, _, rfl, within', rfl⟩ := completes_succ.1 completed
    dsimp only [codeOf, List.foldl] at within ⊢
    generalize codeEq : (x * 0x40 + y.toNat % 0x40) * 0x40 + z.toNat % 0x40 = code
    have inside : 0x80 ≤ y.toNat ∧ y.toNat ≤ 0xBF := by split_ifs at within <;> omega
    have valid : 0x800 ≤ code ∧ code < 0xD800 ∨ 0xDFFF < code ∧ code < 0x10000 := by
      split_ifs at within <;> omega
    have known : (Char.ofNat code).toNat = code := toNat_ofNat (by omega)
    rw [utf8EncodeChar, known, if_neg (by omega), if_neg (by omega),
      if_pos (by omega), eq_ofNat (b := b) (by omega),
      eq_continuation (b := y) inside.1 inside.2 (by omega),
      eq_continuation (b := z) within'.1 within'.2 (by omega)]
  | @four x range =>
    obtain ⟨y, _, rfl, within, completed⟩ := completes_succ.1 completed
    obtain ⟨z, _, rfl, within', completed⟩ := completes_succ.1 completed
    obtain ⟨w, _, rfl, within'', rfl⟩ := completes_succ.1 completed
    dsimp only [codeOf, List.foldl] at within ⊢
    generalize codeEq : ((x * 0x40 + y.toNat % 0x40) * 0x40 + z.toNat % 0x40) * 0x40 +
      w.toNat % 0x40 = code
    have inside : 0x80 ≤ y.toNat ∧ y.toNat ≤ 0xBF := by split_ifs at within <;> omega
    have valid : 0xFFFF < code ∧ code < 0x110000 := by split_ifs at within <;> omega
    have known : (Char.ofNat code).toNat = code := toNat_ofNat (by omega)
    rw [utf8EncodeChar, known, if_neg (by omega), if_neg (by omega),
      if_neg (by omega), eq_ofNat (b := b) (by omega),
      eq_continuation (b := y) inside.1 inside.2 (by omega),
      eq_continuation (b := z) within'.1 within'.2 (by omega),
      eq_continuation (b := w) within''.1 within''.2 (by omega)]

/-! ## Reading what follows a first byte -/

/-- Some character has an encoding that begins with these bytes. -/
def Begins (front : List Byte) : Prop := ∃ c, front <+: utf8EncodeChar c

/-- The characters that begin with `front` are those whose other bytes complete it. -/
structure Awaits (front : List Byte) (more low high bits : Nat) : Prop where
  completed : ∀ tail, Completes more low high tail →
    utf8EncodeChar (Char.ofNat (codeOf bits tail)) = front ++ tail
  complete : ∀ c, front <+: utf8EncodeChar c →
    ∃ tail, Completes more low high tail ∧ utf8EncodeChar c = front ++ tail

theorem awaits_lead {b : Byte} {lead : Lead} (row : Lead.Row b.toNat lead) :
    Awaits [b] lead.more lead.low lead.high lead.bits where
  completed _ := utf8EncodeChar_of_completes row
  complete c begins := by
    obtain ⟨first, tail, lead', encoded, row', completes, -⟩ := exists_row c
    rw [encoded, List.cons_prefix_cons] at begins
    obtain ⟨rfl, -⟩ := begins
    obtain rfl := Option.some.inj ((Lead.row_iff.2 row).symm.trans (Lead.row_iff.2 row'))
    exact ⟨tail, completes, encoded⟩

theorem not_begins_of_none {b : Byte} (h : Lead.ofByte? b.toNat = none) : ¬Begins [b] := by
  rintro ⟨c, begins⟩
  obtain ⟨first, tail, lead, encoded, row, -⟩ := exists_row c
  rw [encoded, List.cons_prefix_cons] at begins
  obtain ⟨rfl, -⟩ := begins
  rw [Lead.row_iff.2 row] at h
  cases h

namespace Awaits

variable {front : List Byte} {more low high bits : Nat}

/-- A byte in the range is part of the character. -/
theorem next (h : Awaits front (more + 1) low high bits) {b : Byte}
    (within : low ≤ b.toNat ∧ b.toNat ≤ high) :
    Awaits (front ++ [b]) more 0x80 0xBF (bits * 0x40 + b.toNat % 0x40) where
  completed tail completes := by
    have longer : Completes (more + 1) low high (b :: tail) := ⟨within, completes⟩
    rw [List.append_assoc]
    exact h.completed _ longer
  complete c begins := by
    obtain ⟨_, completes, encoded⟩ := h.complete c ((List.prefix_append front [b]).trans begins)
    obtain ⟨b', tail, rfl, -, rest⟩ := completes_succ.1 completes
    rw [encoded, List.prefix_append_right_inj, List.cons_prefix_cons] at begins
    obtain ⟨rfl, -⟩ := begins
    exact ⟨tail, rest, by rw [encoded, List.append_assoc, List.singleton_append]⟩

/-- No character goes on with a byte outside the range. -/
theorem not_begins (h : Awaits front (more + 1) low high bits) {b : Byte}
    (outside : ¬(low ≤ b.toNat ∧ b.toNat ≤ high)) : ¬Begins (front ++ [b]) := by
  rintro ⟨c, begins⟩
  obtain ⟨_, completes, encoded⟩ := h.complete c ((List.prefix_append front [b]).trans begins)
  obtain ⟨b', tail, rfl, within, -⟩ := completes_succ.1 completes
  rw [encoded, List.prefix_append_right_inj, List.cons_prefix_cons] at begins
  obtain ⟨rfl, -⟩ := begins
  exact outside within

theorem incomplete (h : Awaits front (more + 1) low high bits) (c : Char) :
    utf8EncodeChar c ≠ front := by
  intro whole
  obtain ⟨_, completes, encoded⟩ := h.complete c (whole ▸ List.prefix_rfl)
  obtain ⟨b, tail, rfl, -⟩ := completes_succ.1 completes
  simp [whole] at encoded

theorem begins (h : Awaits front more 0x80 0xBF bits) : Begins front := by
  have completes : ∀ n, Completes n 0x80 0xBF (List.replicate n (0x80 : Byte)) := by
    intro n
    induction n with
    | zero => rfl
    | succ n ih => exact ⟨by decide, ih⟩
  exact ⟨_, by rw [h.completed _ (completes more)]; exact List.prefix_append _ _⟩

end Awaits

/-- The longest beginning of a character that breaks off, or a byte that begins none. -/
structure BreaksOff (front rest : List Byte) : Prop where
  nonempty : front ≠ []
  begun : front.length = 1 ∨ Begins front
  incomplete : ∀ c, utf8EncodeChar c ≠ front
  longest : ∀ b bytes, rest = b :: bytes → ¬Begins (front ++ [b])

/-- What is read is one character, or a beginning of one that breaks off. -/
theorem utf8Follow_reads {front : List Byte} {more low high bits : Nat}
    (h : Awaits front more low high bits) (nonempty : front ≠ [])
    (begun : front.length = 1 ∨ Begins front) (bytes : List Byte) :
    ∃ read, read ++ (utf8Follow more low high bits bytes).2 = bytes ∧
      (utf8EncodeChar (utf8Follow more low high bits bytes).1 = front ++ read ∨
        (utf8Follow more low high bits bytes).1 = replacement ∧
          BreaksOff (front ++ read) (utf8Follow more low high bits bytes).2) := by
  fun_induction utf8Follow more low high bits bytes generalizing front with
  | case1 low high bits bytes => exact ⟨[], rfl, .inl (h.completed [] rfl)⟩
  | case2 more low high bits =>
    refine ⟨[], rfl, .inr ⟨rfl, ?_⟩⟩
    rw [List.append_nil]
    refine ⟨nonempty, begun, h.incomplete, ?_⟩
    rintro b' bytes' same
    cases same
  | case3 more low high bits b bytes within ih =>
    have next := h.next within
    obtain ⟨read, rest, reads⟩ := ih next (by simp) (.inr next.begins)
    refine ⟨b :: read, congrArg (b :: ·) rest, ?_⟩
    simpa using reads
  | case4 more low high bits b bytes outside =>
    refine ⟨[], rfl, .inr ⟨rfl, ?_⟩⟩
    rw [List.append_nil]
    refine ⟨nonempty, begun, h.incomplete, ?_⟩
    rintro b' bytes' same
    cases same
    exact h.not_begins outside

theorem utf8Follow_of_completes {more low high : Nat} {tail : List Byte}
    (h : Completes more low high tail) (bits : Nat) (rest : List Byte) :
    utf8Follow more low high bits (tail ++ rest) = (Char.ofNat (codeOf bits tail), rest) := by
  induction more generalizing low high bits tail with
  | zero =>
    obtain rfl : tail = [] := h
    rfl
  | succ more ih =>
    obtain ⟨b, tail, rfl, within, completes⟩ := completes_succ.1 h
    rw [List.cons_append, utf8Follow, if_pos within, ih completes]
    rfl

/-! ## Decoding -/

/-- **An encoded character is decoded**, whatever follows it. -/
theorem utf8Decode_append (c : Char) (rest : List Byte) :
    utf8Decode (utf8EncodeChar c ++ rest) = c :: utf8Decode rest := by
  obtain ⟨first, tail, lead, encoded, row, completes, code⟩ := exists_row c
  rw [encoded, List.cons_append, utf8Decode, Lead.row_iff.2 row]
  simp only [utf8Follow_of_completes completes, code, Char.ofNat_toNat]

theorem utf8Decode_nil : utf8Decode [] = [] := by rw [utf8Decode]

theorem utf8Decode_flatMap (cs : List Char) : utf8Decode (cs.flatMap utf8EncodeChar) = cs := by
  induction cs with
  | nil => exact utf8Decode_nil
  | cons c cs ih => rw [List.flatMap_cons, utf8Decode_append, ih]

/-- No encoding of a character begins that of another. -/
theorem eq_of_prefix {c d : Char} (h : utf8EncodeChar c <+: utf8EncodeChar d) : c = d := by
  obtain ⟨rest, same⟩ := h
  have alone := utf8Decode_append d []
  rw [List.append_nil, ← same, utf8Decode_append] at alone
  exact List.head_eq_of_cons_eq alone

/-- How bytes are read as a text: U+FFFD stands for each beginning of a character that breaks
off. -/
inductive Decodes : List Byte → List Char → Prop
  | nil : Decodes [] []
  | char (c : Char) {bytes : List Byte} {cs : List Char} (rest : Decodes bytes cs) :
    Decodes (utf8EncodeChar c ++ bytes) (c :: cs)
  | replaced {front bytes : List Byte} {cs : List Char} (broken : BreaksOff front bytes)
    (rest : Decodes bytes cs) : Decodes (front ++ bytes) (replacement :: cs)

theorem decodes_utf8Decode (bytes : List Byte) : Decodes bytes (utf8Decode bytes) := by
  fun_induction utf8Decode bytes with
  | case1 => exact .nil
  | case2 b bytes none ih =>
    have none' := not_begins_of_none none
    have broken : BreaksOff [b] bytes := by
      refine ⟨List.cons_ne_nil _ _, .inl rfl, ?_, ?_⟩
      · intro c whole
        exact none' ⟨c, whole ▸ List.prefix_rfl⟩
      · rintro b' bytes' - ⟨c, begins⟩
        exact none' ⟨c, (List.prefix_append [b] [b']).trans begins⟩
    exact .replaced broken ih
  | case3 b bytes lead found next ih =>
    have awaits := awaits_lead (Lead.row_iff.1 found)
    obtain ⟨read, rest, reads⟩ := utf8Follow_reads awaits (List.cons_ne_nil _ _) (.inl rfl) bytes
    have whole : ([b] ++ read) ++ next.2 = b :: bytes := congrArg (b :: ·) rest
    rw [← whole]
    rcases reads with encoded | ⟨replaced, broken⟩
    · rw [← encoded]
      exact .char next.1 ih
    · rw [show next.1 = replacement from replaced]
      exact .replaced broken ih

/-! ## There is one way to read bytes -/

namespace BreaksOff

variable {front rest : List Byte}

theorem begins_of_longer (h : BreaksOff front rest) {p q : List Byte} (split : front = p ++ q)
    (hp : p ≠ []) (hq : q ≠ []) : Begins front := by
  refine h.begun.resolve_left ?_
  have := List.length_pos_iff.2 hp
  have := List.length_pos_iff.2 hq
  rw [split, List.length_append]
  omega

/-- A character is not broken off. -/
theorem not_char (h : BreaksOff front rest) (c : Char) (bytes : List Byte) :
    utf8EncodeChar c ++ bytes ≠ front ++ rest := by
  intro same
  rcases List.append_eq_append_iff.1 same with ⟨more, split, -⟩ | ⟨more, split, goes⟩
  · by_cases ended : more = []
    · exact h.incomplete c (by rw [split, ended, List.append_nil])
    · obtain ⟨d, begins⟩ := h.begins_of_longer split (utf8EncodeChar_ne_nil c) ended
      rw [split] at begins
      obtain rfl := eq_of_prefix ((List.prefix_append _ more).trans begins)
      exact ended (by simpa using begins.length_le)
  · cases more with
    | nil => exact h.incomplete c (by rw [split, List.append_nil])
    | cons b more =>
      refine h.longest b _ goes ⟨c, ?_⟩
      rw [split, List.prefix_append_right_inj, List.cons_prefix_cons]
      exact ⟨rfl, List.nil_prefix⟩

theorem not_longer (h : BreaksOff front rest) {p q bytes : List Byte} (h' : BreaksOff p bytes)
    (split : front = p ++ q) (goes : bytes = q ++ rest) : q = [] := by
  cases q with
  | nil => rfl
  | cons b q =>
    obtain ⟨d, begins⟩ := h.begins_of_longer split h'.nonempty (List.cons_ne_nil b q)
    refine (h'.longest b _ goes ⟨d, .trans ?_ begins⟩).elim
    rw [split, List.prefix_append_right_inj, List.cons_prefix_cons]
    exact ⟨rfl, List.nil_prefix⟩

theorem eq_of_append (h : BreaksOff front rest) {p bytes : List Byte} (h' : BreaksOff p bytes)
    (same : p ++ bytes = front ++ rest) : bytes = rest := by
  rcases List.append_eq_append_iff.1 same with ⟨more, split, goes⟩ | ⟨more, split, goes⟩
  · rw [goes, h.not_longer h' split goes, List.nil_append]
  · rw [goes, h'.not_longer h split goes, List.nil_append]

end BreaksOff

theorem Decodes.unique {bytes : List Byte} {cs ds : List Char} (h : Decodes bytes cs)
    (h' : Decodes bytes ds) : cs = ds := by
  induction h generalizing ds with
  | nil =>
    generalize empty : ([] : List Byte) = bytes at h'
    cases h' with
    | nil => rfl
    | char c => exact absurd empty (by simp [utf8EncodeChar_ne_nil])
    | replaced broken => exact absurd empty (by simp [broken.nonempty])
  | @char c bytes cs _ ih =>
    generalize whole : utf8EncodeChar c ++ bytes = input at h'
    cases h' with
    | nil => exact absurd whole (by simp [utf8EncodeChar_ne_nil])
    | char d reads =>
      have first := congrArg utf8Decode whole
      rw [utf8Decode_append, utf8Decode_append] at first
      obtain rfl := List.head_eq_of_cons_eq first
      obtain rfl := List.append_cancel_left whole
      rw [ih reads]
    | replaced broken => exact absurd whole (broken.not_char c bytes)
  | @replaced front rest cs broken _ ih =>
    generalize whole : front ++ rest = input at h'
    cases h' with
    | nil => exact absurd whole (by simp [broken.nonempty])
    | char d => exact absurd whole.symm (broken.not_char d _)
    | replaced broken' reads =>
      obtain rfl := broken.eq_of_append broken' whole.symm
      rw [ih reads]

/-- **Bytes are read in one way.** -/
theorem decodes_iff {bytes : List Byte} {cs : List Char} :
    Decodes bytes cs ↔ utf8Decode bytes = cs := by
  constructor
  · intro h
    exact (decodes_utf8Decode bytes).unique h
  · rintro rfl
    exact decodes_utf8Decode bytes

end Recast.Text
