import Recast.Proofs.Literals
import Recast.Proofs.Results

/-!
Scalars by way of their texts. A conversion between scalars is their coercion, and a failure leaves
the destination alone (`Converter.Standard.convertWith_scalar`). The text of a scalar that is no
floating-point number is converted back to it, and the text of a number to every integer type that
holds the number (`Converter.Standard.convert_numeral`).
-/

namespace Recast

open Outcome Recipe

namespace Settings

theorem exists_start_scalar (σ : Settings) (d : Scalar) :
    ∃ d' : Scalar, σ.start (.scalar d) = .scalar d' ∧ d'.kind = d.kind := by
  rcases σ.start_cases (.scalar d) with kept | reset
  · exact ⟨d, kept, rfl⟩
  · exact ⟨d.kind.zero, reset, d.kind.kind_zero⟩

end Settings

namespace Converter.Standard

variable {c : Converter} {options : CallOptions} (h : c.Standard options)
include h

/-- **A scalar is converted by its coercion** to the type of the destination, whatever that holds,
and a failure leaves the destination alone. -/
theorem convertWith_scalar (s d : Scalar) :
    c.convertWith options (.scalar s) (.scalar d) =
      match s.coerce d.kind with
      | .ok converted => .done (.scalar converted)
      | .error error =>
        .failed (.failed (.scalar s.kind) (.scalar d.kind) (.scalar (.literal error)))
          (.scalar d) := by
  obtain ⟨d', started, kind⟩ := (c.settingsOf options).exists_start_scalar d
  have found : chosen (.scalar s) (.scalar d') = some Recipe.coerce := rfl
  rw [h.convertWith_eq, Settings.convert_eq, Settings.step, started, found]
  simp only [Value.isNil, Bool.false_eq_true, if_false, Recipe.coerce, Value.coerce, kind,
    Value.type]
  cases s.coerce d.kind <;> rfl

/-- **A scalar that is told by its text comes back from it**, whatever the destinations held. The
text of an integer is also converted to each other integer type that holds the number, and there it
is the same number. Every other type refuses it: one without signs for the minus, and else as out of
range. The destination is left alone then, in place as well. -/
theorem convert_numeral {s : Scalar} (told : s.kind.isTold = true) (old : String) {d : Scalar}
    (same : d.kind = s.kind) :
    c.convertWith options (.scalar s) (.string old) = .done (.string s.text) ∧
      c.convertWith options (.string s.text) (.scalar d) = .done (.scalar s) ∧
      ∀ k word, s = .int k word → ∀ (l : IntKind) (held : l.Word),
        let n := k.value word
        let dst : Value := .scalar (.int l held)
        (l.Holds n → l.value (l.wrap n) = n ∧
          c.convertWith options (.string s.text) dst = .done (.int l n)) ∧
        (¬l.Holds n →
          c.convertWith options (.string s.text) dst =
              .failed (.failed .string dst.type (.scalar (.literal (l.refusal n)))) dst ∧
            ∀ scope, Recipe.coerce scope (.string s.text) dst =
              .failed (.scalar (.literal (l.refusal n))) dst) := by
  have written : s.toText = s.text := by
    cases s with
    | float => cases told
    | _ => rfl
  have toText : s.coerce .string = .ok (.string s.text) := by rw [← written]; rfl
  refine ⟨?_, ?_, ?_⟩
  · rw [Value.string, h.convertWith_scalar]
    simp only [Scalar.kind, toText]
  · rw [Value.string, h.convertWith_scalar, same, Scalar.coerce_text told]
  · rintro k word rfl l held n dst
    have read := Scalar.coerce_numeral l n
    have converted := h.convertWith_scalar (.string (toString n)) (.int l held)
    refine ⟨fun holds => ⟨IntKind.value_wrap holds, ?_⟩, fun outside => ⟨?_, fun scope => ?_⟩⟩
    · rw [if_pos holds] at read
      simp only [Scalar.kind, read] at converted
      exact converted
    · rw [if_neg outside] at read
      simp only [Scalar.kind, read] at converted
      exact converted
    · rw [if_neg outside] at read
      have refused : Value.coerce (.string (toString n)) dst =
          .error (.literal (l.refusal n)) := by
        simp only [dst, Value.coerce, Scalar.kind, read]
        rfl
      have text : (Scalar.int k word).text = toString n := rfl
      rw [Recipe.coerce, text, refused]
      rfl

end Converter.Standard

/-- A negative number that eight bits do not hold. -/
theorem Converter.Standard.convert_numeral_negative :
    let c : Converter := {}
    let s : Scalar := .int .int16 (IntKind.int16.wrap (-300))
    (c.Standard {} ∧ s.kind.isTold = true) ∧
      c.convertWith {} (.scalar s) (.string "old") = .done (.string "-300") ∧
      c.convertWith {} (.string "-300") (.int .int16 7) = .done (.scalar s) ∧
      c.convertWith {} (.string "-300") (.int .int64 7) = .done (.int .int64 (-300)) ∧
      c.convertWith {} (.string "-300") (.int .int8 7) =
        .failed (.failed .string (.scalar (.int .int8)) (.scalar (.literal (.outOfRange "-300"))))
          (.int .int8 7) ∧
      c.convertWith {} (.string "-300") (.int .uint64 7) =
        .failed (.failed .string (.scalar (.int .uint64)) (.scalar (.literal (.malformed "-300"))))
          (.int .uint64 7) := by
  intro c s
  have standard : c.Standard {} := ⟨rfl, rfl⟩
  have told : s.kind.isTold = true := rfl
  obtain ⟨there, back, others⟩ := standard.convert_numeral told "old"
    (d := .int .int16 (IntKind.int16.wrap 7)) rfl
  have wider := others _ _ rfl .int64 (IntKind.int64.wrap 7)
  have narrower := others _ _ rfl .int8 (IntKind.int8.wrap 7)
  have unsigned := others _ _ rfl .uint64 (IntKind.uint64.wrap 7)
  exact ⟨⟨standard, told⟩, there, back, (wider.1 (by decide)).2, (narrower.2 (by decide)).1,
    (unsigned.2 (by decide)).1⟩

end Recast
