import Recast.Proofs.Results

/-!
Arrays as destinations. An array is filled by index, over what it holds or over nothing: the items
past the end of the source stay, and zero values fill it up to its length
(`Converter.Standard.convert_array`). It has that length afterwards, unless it held more items
before. Then the old items past the end of the source are counted as if they stood at the front, and
too many of them stay.
-/

namespace Recast

open Outcome Recipe

/-! ## Items behind those that are converted -/

namespace Recipe

variable {n i : Nat} {zero : Value} {filled old : List Value}

theorem length_padTo (n : Nat) (zero : Value) (items : List Value) :
    (padTo n zero items).length = max n items.length := by
  rw [padTo, List.length_append, List.length_replicate]
  omega

theorem getElem?_padTo {items : List Value} (inside : i < max n items.length) :
    (padTo n zero items)[i]? = some (items[i]?.getD zero) := by
  by_cases held : i < items.length
  · rw [padTo, List.getElem?_append_left held, List.getElem?_eq_getElem held, Option.getD_some]
  · have short : i - items.length < n - items.length := by omega
    rw [Nat.not_lt] at held
    rw [padTo, List.getElem?_append_right held, List.getElem?_replicate, if_pos short,
      List.getElem?_eq_none held, Option.getD_none]

/-- The items of an array after some have been converted in front of the old ones. -/
def joinTail (n : Nat) (zero : Value) (filled old : List Value) : List Value :=
  padTo n zero (filled ++ (old.drop filled.length).take n)

theorem length_joinTail (n : Nat) (zero : Value) (filled old : List Value) :
    (joinTail n zero filled old).length =
      max n (filled.length + min n (old.length - filled.length)) := by
  rw [joinTail, length_padTo, List.length_append, List.length_take, List.length_drop]

theorem joinTail_front (inside : i < filled.length) :
    (joinTail n zero filled old)[i]? = filled[i]? := by
  have bound : i < max n (filled ++ (old.drop filled.length).take n).length := by
    rw [List.length_append]
    omega
  rw [joinTail, getElem?_padTo bound, List.getElem?_append_left inside,
    List.getElem?_eq_getElem inside, Option.getD_some]

/-- Behind the front each old item stands at its own place. -/
theorem joinTail_back (behind : filled.length ≤ i)
    (inside : i < (joinTail n zero filled old).length) :
    (joinTail n zero filled old)[i]? = some (old[i]?.getD zero) := by
  rw [length_joinTail] at inside
  have bound : i < max n (filled ++ (old.drop filled.length).take n).length := by
    rw [List.length_append, List.length_take, List.length_drop]
    exact inside
  have place : filled.length + (i - filled.length) = i := by omega
  rw [joinTail, getElem?_padTo bound, List.getElem?_append_right behind, List.getElem?_take,
    List.getElem?_drop, place]
  split
  · rfl
  · have past : old.length ≤ i := by omega
    rw [List.getElem?_eq_none past]

end Recipe

/-! ## Arrays that are filled -/

/-- The items that an array of `n` starts from: those that it holds, or zero values where every
level starts from zero. -/
def Settings.itemsKept (σ : Settings) (n : Nat) (zero : Value) (old : List Value) : List Value :=
  match σ.mergeMode with
  | .intoExisting => old
  | .replace => List.replicate n zero

/-- The items that an array of `n` holds after a source has been converted into it, by `convert`
item by item, over the `old` ones. -/
structure FilledOver (convert : Value → Value → Outcome ConversionError Value) (n : Nat)
    (zero : Value) (old source items : List Value) : Prop where
  /-- No source item is dropped. -/
  fits : source.length ≤ n
  count : items.length = max n (source.length + min n (old.length - source.length))
  front : ∀ (i : Nat) v, source[i]? = some v →
    ∃ w, items[i]? = some w ∧ convert v (old[i]?.getD zero) = .done w
  back : ∀ i : Nat, source.length ≤ i → i < items.length → items[i]? = some (old[i]?.getD zero)

/-- Only what the conversions of items give matters. -/
theorem FilledOver.congr {f g : Value → Value → Outcome ConversionError Value}
    (same : ∀ v slot w, f v slot = .done w ↔ g v slot = .done w) {n : Nat} {zero : Value}
    {old source items : List Value} :
    FilledOver f n zero old source items ↔ FilledOver g n zero old source items := by
  constructor
  · intro h
    exact ⟨h.fits, h.count, by simpa only [same] using h.front, h.back⟩
  · intro h
    exact ⟨h.fits, h.count, by simpa only [same] using h.front, h.back⟩

/-- **An array keeps its length unless it holds too many items.** Even then it does if the source
has none. -/
theorem FilledOver.length_eq_iff {convert : Value → Value → Outcome ConversionError Value} {n : Nat}
    {zero : Value} {old source items : List Value}
    (h : FilledOver convert n zero old source items) :
    items.length = n ↔ old.length ≤ n ∨ source = [] := by
  have fits := h.fits
  rw [h.count, ← List.length_eq_zero_iff]
  omega

namespace Settings

variable {σ : Settings} {item : Ty} {n : Nat} {old source items : List Value}

theorem fillSequence_array_eq_done :
    fillSequence σ.nested item (some n) old source = .done items ↔
      FilledOver σ.convert n item.zero old source items := by
  rw [fillSequence_eq_done]
  constructor
  · rintro ⟨fits, filled, converted, rfl⟩
    obtain ⟨count, each⟩ := fillItems_eq_done.1 converted
    rw [← count] at fits ⊢
    have whole : padTo n item.zero (filled ++ (old.drop filled.length).take n) =
        joinTail n item.zero filled old := rfl
    rw [whole]
    refine ⟨count ▸ fits, ?_, fun i v hv => ?_, fun i behind inside => ?_⟩
    · rw [length_joinTail, count]
    · have inside : i < filled.length := by
        have := (List.getElem?_eq_some_iff.1 hv).1
        omega
      have at_i := List.getElem?_eq_getElem inside
      refine ⟨filled[i], (joinTail_front inside).trans at_i, ?_⟩
      exact σ.result?_eq_some.1 (σ.nested_eq_done.1 (each i v _ hv at_i))
    · exact joinTail_back (count ▸ behind) inside
  · intro h
    have shown : (items.take source.length).length = source.length := by
      rw [List.length_take, h.count]
      omega
    refine ⟨h.fits, items.take source.length, fillItems_eq_done.2 ⟨shown, ?_⟩, ?_⟩
    · intro i v w hv hw
      obtain ⟨w', at_i, converted⟩ := h.front i v hv
      have inside := (List.getElem?_eq_some_iff.1 hv).1
      rw [List.getElem?_take_of_lt inside, at_i] at hw
      rw [← Option.some.inj hw]
      exact σ.nested_eq_done.2 (σ.result?_eq_some.2 converted)
    · have lengths : (joinTail n item.zero (items.take source.length) old).length =
          items.length := by
        rw [length_joinTail, shown, h.count]
      have same : joinTail n item.zero (items.take source.length) old = items := by
        apply List.ext_getElem?
        intro i
        by_cases front : i < (items.take source.length).length
        · rw [joinTail_front front, List.getElem?_take_of_lt (shown ▸ front)]
        · rw [Nat.not_lt] at front
          by_cases inside : i < items.length
          · have behind : source.length ≤ i := shown ▸ front
            rw [joinTail_back front (lengths ▸ inside), h.back i behind inside]
          · rw [Nat.not_lt] at inside
            rw [List.getElem?_eq_none inside, List.getElem?_eq_none (lengths ▸ inside)]
      rwa [joinTail, shown] at same

theorem start_array (σ : Settings) (item : Ty) (n : Nat) (old : List Value) :
    σ.start (.seq item (some n) old) = .seq item (some n) (σ.itemsKept n item.zero old) := by
  cases mode : σ.mergeMode with
  | intoExisting => rw [σ.start_of_intoExisting mode, itemsKept, mode]
  | replace => rw [σ.start_of_replace mode, itemsKept, mode, Value.type, Ty.zero]

/-- **An array is filled over the items that it starts from.** -/
theorem result?_array_eq_some {t : Ty} {m : Option Nat} {dst' : Value} :
    σ.result? (.seq t m source) (.seq item (some n) old) = some dst' ↔
      ∃ items, dst' = .seq item (some n) items ∧
        FilledOver σ.convert n item.zero (σ.itemsKept n item.zero old) source items := by
  have notNil : Value.seq item (some n) old ≠ .nil := by simp
  have live : (Value.seq t m source).elem.isPointer = false := rfl
  have started := σ.start_start (.seq item (some n) old)
  rw [start_array] at started
  rw [← σ.result?_start _ notNil, start_array, result?_seq_eq_some live started]
  constructor
  · rintro (⟨s, text, -⟩ | ⟨_, _, _, items, same, filled, rfl⟩)
    · cases text
    · cases same
      exact ⟨items, rfl, fillSequence_array_eq_done.1 filled⟩
  · rintro ⟨items, rfl, filled⟩
    exact .inr ⟨t, m, source, items, rfl, fillSequence_array_eq_done.2 filled, rfl⟩

end Settings

namespace Converter.Standard

variable {c : Converter} {options : CallOptions} (h : c.Standard options)
include h

/-- **A source is converted into an array item by item**, over the items that the array starts from,
and it succeeds just if the source is not too long and each of its items can be converted. The array
has its length afterwards if it started from no more items than that, or if the source has none. -/
theorem convert_array {t item : Ty} {m : Option Nat} {n : Nat} {source old : List Value} :
    let kept := (c.settingsOf options).itemsKept n item.zero old
    (∀ dst', c.convertWith options (.seq t m source) (.seq item (some n) old) = .done dst' ↔
      ∃ items, dst' = .seq item (some n) items ∧
        FilledOver (c.convertWith options) n item.zero kept source items) ∧
    ∀ items, FilledOver (c.convertWith options) n item.zero kept source items →
      (items.length = n ↔ kept.length ≤ n ∨ source = []) := by
  intro kept
  refine ⟨fun dst' => ?_, fun items filled => filled.length_eq_iff⟩
  rw [h.result?_eq_some, Settings.result?_array_eq_some]
  exact exists_congr fun items => and_congr_right fun _ => FilledOver.congr fun _ _ _ =>
    h.convertWith_eq_done.symm

end Converter.Standard

/-- The first item is converted into the old one, the second one stays, and the third is filled up.
-/
theorem Converter.Standard.convert_array_short :
    let int : Int → Value := .int .int
    let old := [int 1, int 2]
    ({} : Converter).Standard {} ∧
      FilledOver (({} : Converter).convertWith {}) 3 (int 0) old [.string "0x9"]
        [int 9, int 2, int 0] ∧
      ({} : Converter).convertWith {} (.seq .string none [.string "0x9"])
          (.seq (.scalar (.int .int)) (some 3) old) =
        .done (.seq (.scalar (.int .int)) (some 3) [int 9, int 2, int 0]) ∧
      [int 9, int 2, int 0].length = 3 := by
  intro int old
  have standard : ({} : Converter).Standard {} := ⟨rfl, rfl⟩
  obtain ⟨converted, length⟩ := @Converter.Standard.convert_array _ _ standard .string
    (.scalar (.int .int)) none 3 [.string "0x9"] old
  have filled : FilledOver (({} : Converter).convertWith {}) 3 (int 0) old [.string "0x9"]
      [int 9, int 2, int 0] := by
    refine ⟨by decide, rfl, fun i v hv => ?_, fun i behind inside => ?_⟩
    · obtain ⟨rfl, rfl⟩ : i = 0 ∧ v = .string "0x9" := by
        cases i with
        | zero => exact ⟨rfl, (Option.some.inj hv).symm⟩
        | succ i => cases hv
      exact ⟨int 9, rfl, rfl⟩
    · have places : i = 1 ∨ i = 2 := by
        simp only [List.length_cons, List.length_nil] at behind inside
        omega
      obtain rfl | rfl := places <;> rfl
  exact ⟨standard, filled, (converted _).2 ⟨_, rfl, filled⟩, (length _ filled).2 (.inl (by decide))⟩

/-- An array of two that held three items holds three afterwards: two old ones are counted from the
end of the source on, where there is room for one. -/
theorem Converter.convert_array_overfull :
    let int : Int → Value := .int .int
    let array (items : List Value) : Value := .seq (.scalar (.int .int)) (some 2) items
    ({} : Converter).convert (.seq (.scalar (.int .int)) none [int 9])
        (array [int 1, int 2, int 3]) = .done (array [int 9, int 2, int 3]) ∧
      [int 9, int 2, int 3].length ≠ 2 := by
  intro int array
  exact ⟨rfl, by decide⟩

end Recast
