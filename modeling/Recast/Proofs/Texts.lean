import Recast.Proofs.Encoding
import Recast.Proofs.Numerals
import Recast.Proofs.Reading

/-!
Texts, bytes and code points. A text is converted into its UTF-8 bytes, and comes back from these
and from its code points. Any bytes are read as a text, and are the bytes of that text just if they
are valid UTF-8. Any numbers of 32 bits are read as a text with one character for each
(`Converter.Standard.convert_texts`).
-/

namespace Recast

open Outcome Recipe

/-! ## Bytes of a text -/

namespace Text

def bytesOf (b : ByteArray) : List Byte := b.data.toList.map UInt8.toBitVec

theorem bytesOf_injective {a b : ByteArray} (h : bytesOf a = bytesOf b) : a = b := by
  have bytes : a.data.toList = b.data.toList :=
    List.map_injective_iff.2 (fun _ _ => UInt8.toBitVec_inj.1) h
  exact ByteArray.ext (Array.toList_inj.1 bytes)

theorem map_utf8EncodeChar (c : Char) :
    (String.utf8EncodeChar c).map UInt8.toBitVec = utf8EncodeChar c := by
  have bound := toNat_bound c
  have code : c.val.toNat = c.toNat := rfl
  simp only [String.utf8EncodeChar, utf8EncodeChar, code]
  split_ifs <;> simp_all [continuation, ← BitVec.toNat_inj] <;> omega

theorem bytesOf_utf8Encode (cs : List Char) :
    bytesOf cs.utf8Encode = cs.flatMap utf8EncodeChar := by
  rw [bytesOf, List.utf8Encode, List.data_toByteArray, List.map_flatMap]
  simp only [map_utf8EncodeChar]

/-- The bytes of a text are those that it is stored as. -/
theorem bytesOf_toByteArray (s : String) : bytesOf s.toByteArray = utf8Encode s := by
  obtain ⟨cs, rfl⟩ : ∃ cs, s = String.ofList cs := ⟨s.toList, String.ofList_toList.symm⟩
  rw [String.toByteArray_ofList, bytesOf_utf8Encode, utf8Encode, String.toList_ofList]

theorem utf8Decode_utf8Encode (s : String) : utf8Decode (utf8Encode s) = s.toList :=
  utf8Decode_flatMap s.toList

/-- **Valid bytes are those that are encoded as they were decoded.** -/
theorem isValidUTF8_iff {b : ByteArray} :
    b.IsValidUTF8 ↔ utf8Encode (String.ofList (utf8Decode (bytesOf b))) = bytesOf b := by
  rw [utf8Encode, String.toList_ofList]
  constructor
  · rintro ⟨cs, rfl⟩
    rw [bytesOf_utf8Encode, utf8Decode_flatMap]
  · intro back
    refine ⟨utf8Decode (bytesOf b), bytesOf_injective ?_⟩
    rw [bytesOf_utf8Encode, back]

/-- The character of a number: itself if it is one, else U+FFFD. -/
def IsRune (word : IntKind.int32.Word) (c : Char) : Prop :=
  let n := IntKind.int32.value word
  if n < 0 ∨ 0xD800 ≤ n ∧ n ≤ 0xDFFF ∨ 0x10FFFF < n then c = replacement else c.toNat = n

/-- A negative number wraps to one that is too large. -/
theorem isRune_charOfCode (word : IntKind.int32.Word) : IsRune word (charOfCode word.toNat) := by
  have range : word.toNat < 2 ^ 32 := word.isLt
  have value : IntKind.int32.value word =
      if 2 * word.toNat < 2 ^ 32 then (word.toNat : Int) else word.toNat - (2 ^ 32 : Nat) :=
    BitVec.toInt_eq_toNat_cond word
  unfold IsRune charOfCode
  generalize IntKind.int32.value word = code at value
  generalize word.toNat = n at range value
  by_cases valid : n.isValidChar
  · have bound : n < 0xD800 ∨ 0xDFFF < n ∧ n < 0x110000 := valid
    have small : 2 * n < 2 ^ 32 := by omega
    rw [if_pos small] at value
    rw [if_pos valid, if_neg (by omega), toNat_ofNat bound, value]
  · have bound : ¬(n < 0xD800 ∨ 0xDFFF < n ∧ n < 0x110000) := valid
    have outside : code < 0 ∨ 0xD800 ≤ code ∧ code ≤ 0xDFFF ∨ 0x10FFFF < code := by
      split_ifs at value <;> omega
    rw [if_neg valid, if_pos outside]

theorem charOfCode_toNat (c : Char) : charOfCode (IntKind.int32.wrap c.toNat).toNat = c := by
  have bound := toNat_bound c
  have code : (IntKind.int32.wrap c.toNat).toNat = c.toNat := by
    have small : c.toNat < 2 ^ 32 := by omega
    rw [IntKind.wrap, BitVec.ofInt_natCast, BitVec.toNat_ofNat]
    exact Nat.mod_eq_of_lt small
  have valid : c.toNat.isValidChar := bound
  rw [code, charOfCode, if_pos valid, Char.ofNat_toNat]

end Text

/-! ## Slices -/

namespace Value

/-- A slice of integers of one type. -/
def ints (k : IntKind) (words : List k.Word) : Value :=
  .seq (.scalar (.int k)) none (words.map fun word => .scalar (.int k word))

theorem ints_inj {k : IntKind} {words words' : List k.Word} :
    ints k words = ints k words' ↔ words = words' := by
  have injective : Function.Injective fun word : k.Word => Value.scalar (.int k word) := by
    intro word word' same
    simpa using same
  simp [ints, (List.map_injective_iff.2 injective).eq_iff]

theorem mapM_ints {k : IntKind} {ε α : Type} {f : Value → Except ε α} {g : k.Word → α}
    (read : ∀ word, f (.scalar (.int k word)) = .ok (g word)) (words : List k.Word) :
    (words.map fun word => Value.scalar (.int k word)).mapM f = .ok (words.map g) := by
  rw [Except.mapM_eq_ok, List.forall₂_map_left_iff, List.forall₂_map_right_iff, List.forall₂_same]
  exact fun word _ => read word

def bytes (b : ByteArray) : Value := ints .uint8 (Text.bytesOf b)

end Value

namespace Settings

variable (σ : Settings)

theorem exists_start_slice (item : Ty) (old : List Value) :
    ∃ held, σ.start (.seq item none old) = .seq item none held := by
  rcases σ.start_cases (.seq item none old) with kept | reset
  · exact ⟨old, kept⟩
  · exact ⟨[], reset⟩

theorem exists_start_string (was : String) : ∃ held, σ.start (.string was) = .string held := by
  obtain ⟨d, started, kind⟩ := σ.exists_start_scalar (.string was)
  cases d <;> cases kind
  exact ⟨_, started⟩

theorem result?_bytes (s : String) (old : List Value) :
    σ.result? (.string s) (.seq (.scalar (.int .uint8)) none old) =
      some (.ints .uint8 (Text.utf8Encode s)) := by
  obtain ⟨held, started⟩ := σ.exists_start_slice (.scalar (.int .uint8)) old
  have found : chosen (.string s) (.seq (.scalar (.int .uint8)) none held) = some textToBytes := rfl
  rw [σ.result?_of_start (by simp) started found]
  rfl

theorem result?_ofBytes (bytes : List Text.Byte) (was : String) :
    σ.result? (.ints .uint8 bytes) (.string was) =
      some (.string (String.ofList (Text.utf8Decode bytes))) := by
  obtain ⟨held, started⟩ := σ.exists_start_string was
  have found : chosen (.ints .uint8 bytes) (.string held) = some bytesToText := rfl
  have read : (bytes.map fun byte => Value.scalar (.int .uint8 byte)).mapM byte = .ok bytes :=
    (Value.mapM_ints (k := .uint8) (g := id) (fun _ => rfl) bytes).trans
      (congrArg Except.ok (List.map_id bytes))
  rw [σ.result?_of_start (by simp) started found]
  simp only [Value.ints, bytesToText, read]
  rfl

theorem result?_ofRunes (runes : List IntKind.int32.Word) (was : String) :
    σ.result? (.ints .int32 runes) (.string was) =
      some (.string (String.ofList (runes.map fun word => charOfCode word.toNat))) := by
  obtain ⟨held, started⟩ := σ.exists_start_string was
  have found : chosen (.ints .int32 runes) (.string held) = some runesToText := rfl
  have read := Value.mapM_ints (k := .int32) (f := rune) (fun _ => rfl) runes
  rw [σ.result?_of_start (by simp) started found]
  simp only [Value.ints, runesToText, read]
  rfl

end Settings

namespace Converter.Standard

/-- **Texts, bytes and code points.** A text is converted into exactly its UTF-8 bytes, and comes
back from these and from its code points. All bytes are converted to a text, with U+FFFD for each
longest beginning of a character that breaks off, and come back from it just if they are valid
UTF-8. All numbers of 32 bits are converted to a text with one character for each, which is U+FFFD
for a number that is negative, a surrogate or above U+10FFFF. What the destination held does not
matter. -/
theorem convert_texts {c : Converter} {options : CallOptions} (h : c.Standard options)
    (old : List Value) (was : String) :
    let toBytes (v : Value) := c.convertWith options v (.seq (.scalar (.int .uint8)) none old)
    let toText (v : Value) := c.convertWith options v (.string was)
    (∀ s : String,
      toBytes (.string s) = .done (.bytes s.toByteArray) ∧
        toText (.bytes s.toByteArray) = .done (.string s) ∧
        toText (.ints .int32 (s.toList.map fun c => IntKind.int32.wrap c.toNat)) =
          .done (.string s)) ∧
      (∀ b : ByteArray, ∃ t : String, toText (.bytes b) = .done (.string t) ∧
        Text.Decodes (Text.bytesOf b) t.toList ∧
        (toBytes (.string t) = .done (.bytes b) ↔ b.IsValidUTF8)) ∧
      ∀ runes : List IntKind.int32.Word, ∃ t : String,
        toText (.ints .int32 runes) = .done (.string t) ∧
          List.Forall₂ Text.IsRune runes t.toList := by
  intro toBytes toText
  refine ⟨fun s => ⟨?_, ?_, ?_⟩, fun b => ?_, fun runes => ?_⟩
  · rw [h.result?_eq_some, Settings.result?_bytes, Value.bytes, Text.bytesOf_toByteArray]
  · rw [h.result?_eq_some, Value.bytes, Settings.result?_ofBytes, Text.bytesOf_toByteArray,
      Text.utf8Decode_utf8Encode, String.ofList_toList]
  · rw [h.result?_eq_some, Settings.result?_ofRunes, List.map_map]
    simp [Text.charOfCode_toNat, Function.comp_def]
  · refine ⟨String.ofList (Text.utf8Decode (Text.bytesOf b)), ?_, ?_, ?_⟩
    · rw [h.result?_eq_some, Value.bytes, Settings.result?_ofBytes]
    · rw [String.toList_ofList]
      exact Text.decodes_utf8Decode _
    · rw [h.result?_eq_some, Settings.result?_bytes, Option.some_inj, Text.isValidUTF8_iff]
      exact Value.ints_inj
  · refine ⟨String.ofList (runes.map fun word => charOfCode word.toNat), ?_, ?_⟩
    · rw [h.result?_eq_some, Settings.result?_ofRunes]
    · rw [String.toList_ofList, List.forall₂_map_right_iff, List.forall₂_same]
      exact fun word _ => Text.isRune_charOfCode word

/-- A character whose last byte is missing, and numbers that are no characters. -/
theorem convert_texts_broken :
    let c : Converter := {}
    let toBytes (v : Value) :=
      c.convertWith {} v (.seq (.scalar (.int .uint8)) none [.int .uint8 7])
    let toText (v : Value) := c.convertWith {} v (.string "old")
    let cut : ByteArray := ⟨#[0x68, 0xE2, 0x82]⟩
    c.Standard {} ∧
      toBytes (.string "h€") = .done (.bytes ⟨#[0x68, 0xE2, 0x82, 0xAC]⟩) ∧
      toText (.bytes cut) = .done (.string "h\uFFFD") ∧
      ¬toBytes (.string "h\uFFFD") = .done (.bytes cut) ∧
      toText (.ints .int32 [-1, 0xD800, 0x20AC]) = .done (.string "\uFFFD\uFFFD€") := by
  intro c toBytes toText cut
  have standard : c.Standard {} := ⟨rfl, rfl⟩
  obtain ⟨texts, bytes, runes⟩ := standard.convert_texts [.int .uint8 7] "old"
  obtain ⟨t, read, decodes, back⟩ := bytes cut
  obtain ⟨u, spelled, each⟩ := runes [-1, 0xD800, 0x20AC]
  have ht : t = "h\uFFFD" := by
    have known := Text.decodes_iff.1 decodes
    simp [cut, Text.bytesOf, Text.utf8Decode, Text.Lead.ofByte?, Text.utf8Follow] at known
    exact String.toList_inj.1 (known.symm.trans (by decide))
  have hu : u = "\uFFFD\uFFFD€" := by
    generalize known : u.toList = cs at each
    obtain _ | ⟨hx, _ | ⟨hy, _ | ⟨hz, _ | _⟩⟩⟩ := each
    rename_i x y z
    rw [Text.IsRune, if_pos (by decide)] at hx hy
    rw [Text.IsRune, if_neg (by decide)] at hz
    have euro : z = '€' := by
      rw [← Char.ofNat_toNat z, show z.toNat = 0x20AC from Int.natCast_inj.1 hz]
    rw [hx, hy, euro] at known
    exact String.toList_inj.1 (known.trans (by decide))
  subst ht hu
  have invalid : ¬cut.IsValidUTF8 := by decide +kernel
  exact ⟨standard, (texts "h€").1, read, mt back.1 invalid, spelled⟩

end Converter.Standard

end Recast
