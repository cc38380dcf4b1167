import Mathlib.Logic.Relation
import Recast.Proofs.Origins
import Recast.Proofs.Slots
import Recast.Proofs.Termination

/-!
Failures of the standard recipes. A conversion fails for one of five reasons
(`Settings.Documented`), each of them found at a pair of values that the conversion comes to by its
own calls (`Settings.failure_documented`). What actions would say of a source or destination that is
not theirs is never said: the choice of the action rules it out (`Settings.accounts_chosen`).
-/

namespace Recast

open Outcome Recipe

/-! ## Texts that are refused -/

/-- The text that an error quotes. -/
def LiteralError.input : LiteralError → String
  | .malformed input | .outOfRange input => input

theorem parseBool_eq_error {text : String} {e : LiteralError} (h : parseBool text = .error e) :
    e.input = text := by
  unfold parseBool at h
  split at h
  · cases h
  · split at h <;> cases h
    rfl

theorem IntegerLiteral.parseSigned_eq_error {bits : Nat} {text : String} {e : LiteralError}
    (h : parseSigned bits text = .error e) : e.input = text := by
  simp only [parseSigned] at h
  split at h
  · cases h
    rfl
  · split at h <;> split at h <;> cases h <;> rfl

theorem IntegerLiteral.parseUnsigned_eq_error {bits : Nat} {text : String} {e : LiteralError}
    (h : parseUnsigned bits text = .error e) : e.input = text := by
  simp only [parseUnsigned] at h
  split at h
  · cases h
    rfl
  · split at h <;> cases h
    rfl

theorem IntKind.parse_eq_error {k : IntKind} {text : String} {e : LiteralError}
    (h : k.parse text = .error e) : e.input = text := by
  unfold IntKind.parse at h
  split at h
  · cases h
  · split at h
    · exact IntegerLiteral.parseSigned_eq_error (Except.map_eq_error h)
    · have refused := Except.map_eq_error h
      cases read : IntegerLiteral.parseUnsigned k.width text with
      | ok => simp [read] at refused
      | error =>
        simp only [read] at refused
        cases refused
        exact IntegerLiteral.parseUnsigned_eq_error read

theorem DecimalLiteral.parse_eq_error {k : FloatKind} {text : String} {e : LiteralError}
    (h : DecimalLiteral.parse k text = .error e) : e.input = text := by
  simp only [DecimalLiteral.parse] at h
  split at h <;> cases h
  rfl

/-- Only a text is refused, and the error quotes it. -/
theorem Scalar.coerce_eq_error {s : Scalar} {k : ScalarKind} {e : LiteralError}
    (h : s.coerce k = .error e) : s = .string e.input ∧ k ≠ .string := by
  cases k with
  | string => cases h
  | bool =>
    have refused : s.toBool = .error e := Except.map_eq_error h
    cases s with
    | string text => exact ⟨by rw [parseBool_eq_error refused], by simp⟩
    | _ => cases refused
  | int k =>
    have refused : s.toInt k = .error e := Except.map_eq_error h
    cases s with
    | string text => exact ⟨by rw [IntKind.parse_eq_error refused], by simp⟩
    | _ => cases refused
  | float k =>
    have refused : s.toFloat k = .error e := Except.map_eq_error h
    cases s with
    | string text => exact ⟨by rw [DecimalLiteral.parse_eq_error refused], by simp⟩
    | _ => cases refused

/-! ## What an action finds -/

theorem Value.type_eq_int {v : Value} {k : IntKind} (h : v.type = .scalar (.int k)) :
    ∃ word : k.Word, v = .scalar (.int k word) := by
  rcases v with _ | (_ | ⟨l, word⟩ | _ | _) | _ | _ | _ | _ | _ <;>
    simp only [Value.type, Scalar.kind, Ty.scalar.injEq, ScalarKind.int.injEq, reduceCtorEq] at h
  subst h
  exact ⟨word, rfl⟩

theorem Value.type_ne_pointer {v : Value} (h : v.isPointer = false) (t : Ty) :
    v.type ≠ .pointer t := by
  cases v with
  | pointer | nilPointer => cases h
  | _ => simp [Value.type]

theorem Recipe.byte_eq_stray {v : Value} {cause : Cause} (h : byte v = .error cause) :
    cause = .stray "byte slice" v.type ∧ v.type ≠ .scalar (.int .uint8) := by
  unfold byte at h
  split at h <;> cases h
  next other =>
  refine ⟨rfl, fun same => ?_⟩
  obtain ⟨word, rfl⟩ := Value.type_eq_int same
  exact other word rfl

theorem Recipe.rune_eq_stray {v : Value} {cause : Cause} (h : rune v = .error cause) :
    cause = .stray "rune slice" v.type ∧ v.type ≠ .scalar (.int .int32) := by
  unfold rune at h
  split at h <;> cases h
  next other =>
  refine ⟨rfl, fun same => ?_⟩
  obtain ⟨word, rfl⟩ := Value.type_eq_int same
  exact other word rfl

/-- A zero value is no live pointer. -/
theorem Ty.elem_zero (t : Ty) : t.zero.elem = t.zero := by
  rcases t with _ | _ | _ | _ | ⟨_, _ | _⟩ | _ <;> rfl

namespace Settings

theorem type_start (σ : Settings) (dst : Value) : (σ.start dst).type = dst.type := by
  rcases σ.start_cases dst with kept | reset
  · rw [kept]
  · rw [reset, Ty.type_zero]

/-- What a destination starts from has the type that the destination has behind its pointers. -/
theorem type_elem_start {σ : Settings} {dst : Value}
    (live : (σ.start dst).elem.isPointer = false) : (σ.start dst).elem.type = dst.elem.type := by
  simp only [start, Context.start] at live ⊢
  split
  · rfl
  · next replace =>
    simp only [replace, Value.reset, Ty.elem_zero, Ty.type_zero] at live ⊢
    cases dst with
    | pointer | nilPointer => simp [Value.type, Ty.zero, Value.isPointer] at live
    | _ => rfl

theorem elem_of_elem_start_seq {σ : Settings} {dst : Value} {item : Ty} {length : Option Nat}
    {old : List Value} (h : (σ.start dst).elem = .seq item length old) :
    dst.elem.type = .seq item length := by
  have live : (σ.start dst).elem.isPointer = false := by rw [h]; rfl
  rw [← type_elem_start live, h]
  rfl

/-- The fields that a struct starts from have the names that are there. -/
theorem elem_of_elem_start_struct {σ : Settings} {dst : Value} {struct : String} {fields : Fields}
    (h : (σ.start dst).elem = .struct struct fields) :
    ∃ old, dst.elem = .struct struct old ∧ old.map (·.1) = fields.map (·.1) := by
  have live : (σ.start dst).elem.isPointer = false := by rw [h]; rfl
  have type := type_elem_start live
  rw [h] at type
  cases elem : dst.elem with
  | struct name old =>
    simp only [elem, Value.type, Ty.struct.injEq, Value.typeFields_eq_map] at type
    obtain ⟨rfl, types⟩ := type
    refine ⟨old, rfl, ?_⟩
    have names := congrArg (List.map (·.1)) types
    simpa [List.map_map, Function.comp_def] using names.symm
  | _ => simp [elem, Value.type] at type

/-! ## Reasons -/

/-- A name that a source has: that of a field, or what a key of a map converts to. -/
def HasName (σ : Settings) (name : String) : Value → Prop
  | .struct _ fields => ∃ field ∈ fields, field.1 = name
  | .map _ _ entries =>
    ∃ entry ∈ entries, ∃ key, σ.convert entry.1 (.string "") = .done key ∧ nameOf key = name
  | _ => False

/-- Why the conversion of `s` into `d` fails, when it does so on its own account. -/
inductive Documented (σ : Settings) (s d : Value) (error : ConversionError) : Prop
  /-- There is no recipe, and no pointer to follow. -/
  | noRecipe {source target : Ty} (root : error.rootCause = .noRecipe source target)
      (types : source = s.type ∧ target = d.type) (plainSource : ∀ t, source ≠ .pointer t)
      (plainTarget : ∀ t, target ≠ .pointer t) (typed : target ≠ .any)
  /-- The source has a name that no field of the destination has. -/
  | unknownField {name struct : String} {fields : Fields}
      (root : error.rootCause = .unknownField name struct)
      (wrapped : ∃ source target inner, error = .failed source target (.conversion inner))
      (strict : σ.skipUnknownFields = false) (named : σ.HasName name s.elem)
      (target : d.elem = .struct struct fields)
      (unmatched : ∀ field ∈ fields, Text.foldEq field.1 name = false)
  /-- A text is no literal of the type wanted, or is out of its range. -/
  | literal {kind : ScalarKind} {e : LiteralError}
      (root : error.rootCause = .failed .string (.scalar kind) (.scalar (.literal e)))
      (source : s = .string e.input) (target : d.type = .scalar kind) (noText : kind ≠ .string)
  /-- A sequence is longer than the array that it goes into. -/
  | tooMany {t item : Ty} {length : Option Nat} {items : List Value} {n : Nat}
      (root : error.rootCause = .failed s.type d.type (.tooMany items.length n item))
      (source : s.elem = .seq t length items) (target : d.elem.type = .seq item (some n))
      (longer : n < items.length)
  /-- Among bytes or code points that a text is built from there is an item of another type. -/
  | stray {kind : IntKind} {container : String} {items : List Value} {v : Value}
      (root : error.rootCause = .failed s.type .string (.stray container v.type))
      (source : s = .seq (.scalar (.int kind)) none items) (target : d.type = .string)
      (known : (kind, container) ∈ [(.uint8, "byte slice"), (.int32, "rune slice")])
      (item : v ∈ items) (other : v.type ≠ .scalar (.int kind))

variable {σ : Settings} {src dst : Value}

/-- What holds of the reason also holds of it wrapped. -/
theorem Documented.wrap {s d : Value} {error : ConversionError} (h : σ.Documented s d error)
    (source target : Ty) : σ.Documented s d (.failed source target (.conversion error)) := by
  have same : (ConversionError.failed source target (.conversion error)).rootCause =
      error.rootCause := rfl
  cases h with
  | noRecipe root types plainSource plainTarget typed =>
    exact .noRecipe (same ▸ root) types plainSource plainTarget typed
  | unknownField root _ strict named target' unmatched =>
    exact .unknownField (same ▸ root) ⟨_, _, _, rfl⟩ strict named target' unmatched
  | literal root source target' noText => exact .literal (same ▸ root) source target' noText
  | tooMany root source target' longer => exact .tooMany (same ▸ root) source target' longer
  | stray root source target' known item other =>
    exact .stray (same ▸ root) source target' known item other

/-! ## Each action -/

/-- A cause that an action has of its own. -/
def OwnCause (σ : Settings) (src dst : Value) (cause : Cause) : Prop :=
  σ.Documented src dst (.failed src.type dst.type cause)

theorem accounts_coerce {s d : Scalar} (target : dst.type = .scalar d.kind) :
    Accounts σ.convert (σ.OwnCause (.scalar s) dst) fun g =>
      coerce ⟨σ, g⟩ (.scalar s) (.scalar d) := by
  refine Accounts.ofExcept _ fun cause failed => ?_
  obtain ⟨error, refused, rfl⟩ := Except.mapError_eq_error failed
  simp only [Value.coerce] at refused
  obtain ⟨e, misread, rfl⟩ := Except.mapError_eq_error refused
  obtain ⟨quoted, noText⟩ := Scalar.coerce_eq_error (Except.map_eq_error misread)
  refine .literal ?_ (congrArg Value.scalar quoted) target noText
  rw [target, quoted]
  rfl

/-- A text built from bytes or from code points. -/
theorem accounts_items {α : Type} {kind : IntKind} {container : String}
    (known : (kind, container) ∈ [(.uint8, "byte slice"), (.int32, "rune slice")])
    {read : Value → Except Cause α}
    (stray : ∀ v cause, read v = .error cause →
      cause = .stray container v.type ∧ v.type ≠ .scalar (.int kind))
    (items : List Value) (target : dst.type = .string) (kept : Value) (build : List α → Value) :
    Accounts σ.convert (σ.OwnCause (.seq (.scalar (.int kind)) none items) dst) fun _ =>
      .ofExcept kept ((items.mapM read).map build) := by
  refine Accounts.ofExcept _ fun cause failed => ?_
  obtain ⟨v, member, refused⟩ := Except.mapM_eq_error (Except.map_eq_error failed)
  obtain ⟨rfl, other⟩ := stray v cause refused
  refine .stray ?_ rfl target known member other
  rw [target]
  rfl

/-- A name that the source has goes into a field, or there is none for it. -/
theorem accounts_assignField {struct name : String} {old slot : Fields} {v : Value}
    (target : dst.elem = .struct struct old) (sameNames : slot.map (·.1) = old.map (·.1))
    (named : σ.HasName name src.elem) :
    Accounts σ.convert (σ.OwnCause src dst) fun g =>
      assignField (Scope.nested ⟨σ, g⟩) σ.skipUnknownFields struct name v slot := by
  refine Accounts.assignField fun strict unmatched => ?_
  refine .unknownField rfl ⟨_, _, _, rfl⟩ strict named target ?_
  have names : ∀ n ∈ slot.map (·.1), Text.foldEq n name = false := List.forall_mem_map.2 unmatched
  rw [sameNames] at names
  exact List.forall_mem_map.1 names

theorem accounts_mapToMap (source : src.shape = .map) (target : (σ.start dst).shape = .map) :
    Accounts σ.convert (σ.OwnCause src dst) fun g => mapToMap ⟨σ, g⟩ src (σ.start dst) := by
  obtain ⟨_, _, entries, source⟩ := Value.shape_eq_map source
  obtain ⟨_, _, old, target⟩ := Value.shape_eq_map target
  simp only [mapToMap, source]
  exact .fillTarget target

theorem accounts_structToMap (source : src.shape = .struct) (target : (σ.start dst).shape = .map) :
    Accounts σ.convert (σ.OwnCause src dst) fun g => structToMap ⟨σ, g⟩ src (σ.start dst) := by
  obtain ⟨_, fields, source⟩ := Value.shape_eq_struct source
  obtain ⟨_, _, old, target⟩ := Value.shape_eq_map target
  simp only [structToMap, source]
  exact .fillTarget target

/-- Steps that take names into the fields of a struct, one after the other. All of them find the
names that the destination has. -/
theorem accounts_fields {α : Type} {xs : List α} (target : (σ.start dst).shape = .struct)
    {step : (Value → Value → Outcome ConversionError Value) → String → Fields → α →
      Outcome Cause Fields}
    (hstep : ∀ struct old, dst.elem = .struct struct old → ∀ x ∈ xs, ∀ slot : Fields,
      slot.map (·.1) = old.map (·.1) →
        Accounts σ.convert (σ.OwnCause src dst) fun g => step g struct slot x)
    (kept : ∀ struct, ∀ x ∈ xs, ∀ slot slot', step σ.convert struct slot x = .done slot' →
      slot'.map (·.1) = slot.map (·.1)) :
    Accounts σ.convert (σ.OwnCause src dst) fun g =>
      writeFields (fun struct fields => .foldSteps (step g struct) fields xs) (σ.start dst) := by
  obtain ⟨struct, fields, target⟩ := Value.shape_eq_struct target
  obtain ⟨old, into, names⟩ := elem_of_elem_start_struct target
  refine .writeFields target ?_
  apply Accounts.foldSteps (fun slot => slot.map (·.1) = old.map (·.1)) (hstep struct old into)
  · intro x member slot slot' sameNames assigned
    exact (kept struct x member slot slot' assigned).trans sameNames
  · exact names.symm

theorem accounts_mapToStruct (source : src.shape = .map) (target : (σ.start dst).shape = .struct) :
    Accounts σ.convert (σ.OwnCause src dst) fun g => mapToStruct ⟨σ, g⟩ src (σ.start dst) := by
  obtain ⟨_, _, entries, source⟩ := Value.shape_eq_map source
  simp only [mapToStruct, source]
  apply accounts_fields target
  · intro struct old into entry member slot sameNames
    apply (Accounts.nested σ entry.1 _).useFor slot
    intro key converted
    apply accounts_assignField into sameNames
    rw [source]
    exact ⟨entry, member, key, mapError_eq_done.1 converted, rfl⟩
  · intro struct entry _ slot slot' assigned
    obtain ⟨key, -, assigned⟩ := useFor_eq_done.1 assigned
    exact map_fst_assignField assigned

theorem accounts_structToStruct (source : src.shape = .struct)
    (target : (σ.start dst).shape = .struct) :
    Accounts σ.convert (σ.OwnCause src dst) fun g => structToStruct ⟨σ, g⟩ src (σ.start dst) := by
  obtain ⟨_, named, source⟩ := Value.shape_eq_struct source
  simp only [structToStruct, source]
  apply accounts_fields target
  · intro struct old into field member slot sameNames
    apply accounts_assignField into sameNames
    rw [source]
    exact ⟨field, member, rfl⟩
  · intro struct field _ slot slot' assigned
    exact map_fst_assignField assigned

theorem accounts_sequenceToSequence (source : src.shape = .sequence)
    (target : (σ.start dst).shape = .sequence) :
    Accounts σ.convert (σ.OwnCause src dst) fun g =>
      sequenceToSequence ⟨σ, g⟩ src (σ.start dst) := by
  obtain ⟨_, _, items, source⟩ := Value.shape_eq_sequence source
  obtain ⟨item, length, old, target⟩ := Value.shape_eq_sequence target
  simp only [sequenceToSequence, source]
  refine .writeElem ?_
  simp only [target]
  refine (Accounts.fillSequence fun n array longer => ?_).map _
  exact .tooMany rfl source (array ▸ elem_of_elem_start_seq target) longer

/-- **Each action** fails for a cause of its own, or is blocked by a nested conversion. -/
theorem accounts_chosen {action : Action} (found : chosen src (σ.start dst) = some action) :
    Accounts σ.convert (σ.OwnCause src dst) fun g => action ⟨σ, g⟩ src (σ.start dst) := by
  have type := σ.type_start dst
  rcases exact_or_byShape found with ⟨s, d, rfl, target, rfl⟩ | ⟨s, old, rfl, target, rfl⟩ |
    ⟨items, s, rfl, target, rfl⟩ | ⟨items, s, rfl, target, rfl⟩ | found
  · rw [target] at type ⊢
    exact accounts_coerce type.symm
  · exact .ofDone _
  · rw [target] at type ⊢
    exact accounts_items (by simp) (fun _ _ => byte_eq_stray) items type.symm _ _
  · rw [target] at type ⊢
    exact accounts_items (by simp) (fun _ _ => rune_eq_stray) items type.symm _ _
  · unfold byShape at found
    split at found <;> cases found
    · exact .writeElem (.ofDone _)
    · exact .writeElem (.ofDone _)
    · next source target => exact accounts_mapToMap source target
    · next source target => exact accounts_structToMap source target
    · next source target => exact accounts_mapToStruct source target
    · next source target => exact accounts_structToStruct source target
    · next source target => exact accounts_sequenceToSequence source target

/-! ## One level -/

theorem follow_of_plain {f : Value → Value → Outcome ConversionError Value}
    (plain : src.isPointer = false) :
    follow f src dst =
      match dst with
      | .pointer pointee target => (f src target).map (.pointer pointee)
      | .nilPointer pointee => (f src pointee.zero).map (.pointer pointee)
      | dst => .failed (.noRecipe src.type dst.type) dst := by
  cases src with
  | pointer | nilPointer => cases plain
  | _ => cases dst <;> rfl

/-- Where pointers are followed, the failure is that of the nested conversion, unless there is no
pointer to follow. -/
theorem follow_eq_failed {f : Value → Value → Outcome ConversionError Value}
    {error : ConversionError} {left : Value} (failed : follow f src dst = .failed error left) :
    (src.isPointer = false ∧ dst.isPointer = false ∧ error = .noRecipe src.type dst.type) ∨
      ∃ s d, BlockedBy f (fun g => follow g src dst) s d error := by
  cases source : src.isPointer with
  | true =>
    cases src with
    | pointer pointee target =>
      exact .inr ⟨target, dst, ⟨left, failed⟩, fun g _ spent => spent⟩
    | nilPointer pointee =>
      exact .inr ⟨pointee.zero, dst, ⟨left, failed⟩, fun g _ spent => spent⟩
    | _ => cases source
  | false =>
    simp only [follow_of_plain source] at failed
    cases dst with
    | pointer pointee target =>
      obtain ⟨inside, fails, -⟩ := map_eq_failed.1 failed
      refine .inr ⟨src, target, ⟨inside, fails⟩, fun g _ spent => ?_⟩
      simp only [follow_of_plain source, spent, Outcome.map]
    | nilPointer pointee =>
      obtain ⟨inside, fails, -⟩ := map_eq_failed.1 failed
      refine .inr ⟨src, pointee.zero, ⟨inside, fails⟩, fun g _ spent => ?_⟩
      simp only [follow_of_plain source, spent, Outcome.map]
    | _ =>
      cases failed
      exact .inl ⟨rfl, rfl, rfl⟩

/-- A conversion fails on its own account, or because of one nested in it, whose failure it passes
on or wraps. -/
theorem convert_eq_failed {error : ConversionError} {left : Value}
    (failed : σ.convert src dst = .failed error left) :
    σ.Documented src dst error ∨
      ∃ s d inner, BlockedBy σ.convert (fun g => σ.step g src dst) s d inner ∧
        (error = inner ∨ ∃ source target, error = .failed source target (.conversion inner)) := by
  rw [σ.convert_eq] at failed
  cases notNil : dst.isNil with
  | true => simp [step, notNil] at failed
  | false =>
    cases found : chosen src (σ.start dst) with
    | some action =>
      simp only [step, notNil, found] at failed ⊢
      obtain ⟨cause, outcome, rfl⟩ := mapError_eq_failed.1 failed
      rcases (accounts_chosen found).failed outcome with own | ⟨s, d, inner, rfl, blocked⟩
      · rw [σ.type_start]
        exact .inl own
      · refine .inr ⟨s, d, inner, ⟨blocked.fails, fun g keeps spent => ?_⟩, .inr ⟨_, _, rfl⟩⟩
        simp only [blocked.stuck g keeps spent, mapError]
        rfl
    | none =>
      simp only [step, notNil, found] at failed ⊢
      rcases follow_eq_failed failed with ⟨source, target, rfl⟩ | ⟨s, d, blocked⟩
      · rw [σ.type_start]
        refine .inl (.noRecipe rfl ⟨rfl, rfl⟩ (Value.type_ne_pointer source) ?_ ?_)
        · rw [← σ.type_start]
          exact Value.type_ne_pointer target
        · apply Value.type_ne_any
          rintro rfl
          cases notNil
      · exact .inr ⟨s, d, error, blocked, .inl rfl⟩

/-- What blocks a conversion is called by it. -/
theorem calls_of_blockedBy {s d : Value} {error : ConversionError}
    (h : BlockedBy σ.convert (fun g => σ.step g src dst) s d error) : σ.Calls src dst s d := by
  classical
  obtain ⟨⟨left, fails⟩, stuck⟩ := h
  refine ⟨fun s' d' => if s' = s ∧ d' = d then .exhausted else σ.convert s' d', by simp, ?_,
    stuck _ ?_ (by simp)⟩
  · intro s' d' spent
    by_contra other
    simp only [other, if_false] at spent
    exact σ.convert_ends s' d' spent
  · intro s' d' slot done
    have other : ¬(s' = s ∧ d' = d) := by
      rintro ⟨rfl, rfl⟩
      rw [fails] at done
      cases done
    simp only [other, if_false, done]

/-! ## All levels -/

/-- The conversions that a conversion comes to by calls. -/
def Reaches (σ : Settings) : Value × Value → Value × Value → Prop :=
  Relation.ReflTransGen fun p q => σ.Calls p.1 p.2 q.1 q.2

/-- **The failures there are.** By its own calls a conversion that fails comes to one that fails for
a documented reason, and what it reports is that failure, wrapped or as it is. -/
theorem failure_documented {error : ConversionError} {left : Value}
    (failed : σ.convert src dst = .failed error left) :
    ∃ s d, σ.Reaches (src, dst) (s, d) ∧ σ.Documented s d error ∧
      ∃ inner left, σ.convert s d = .failed inner left ∧ inner.rootCause = error.rootCause := by
  -- The induction is on calls: what blocks a conversion is called by it.
  induction hp : (src, dst) using (calls_wellFounded σ).induction
    generalizing src dst error left with
  | _ p ih =>
    subst hp
    rcases convert_eq_failed failed with here | ⟨s, d, inner, blocked, passed⟩
    · exact ⟨src, dst, .refl, here, error, left, failed, rfl⟩
    · obtain ⟨innerLeft, fails⟩ := blocked.fails
      have called := calls_of_blockedBy blocked
      obtain ⟨s', d', reached, documented, rest⟩ := ih (s, d) called fails rfl
      have reached : σ.Reaches (src, dst) (s', d') := .head called reached
      rcases passed with rfl | ⟨source, target, rfl⟩
      · exact ⟨s', d', reached, documented, rest⟩
      · exact ⟨s', d', reached, documented.wrap source target, rest⟩

end Settings

/-! ## Calls of the converter -/

/-- **Only documented failures occur.** -/
theorem Converter.Standard.failures_documented {c : Converter} {options : CallOptions}
    (h : c.Standard options) {src dst left : Value} {error : ConversionError}
    (failed : c.convertWith options src dst = .failed error left) :
    ∃ s d, (c.settingsOf options).Reaches (src, dst) (s, d) ∧
      (c.settingsOf options).Documented s d error ∧
      ∃ inner left, (c.settingsOf options).convert s d = .failed inner left ∧
        inner.rootCause = error.rootCause := by
  rw [h.convertWith_eq] at failed
  cases outcome : (c.settingsOf options).convert src dst with
  | done | exhausted => simp [outcome, rollback, useFor] at failed
  | failed cause slot =>
    simp only [outcome, rollback, useFor, Outcome.failed.injEq] at failed
    exact Settings.failure_documented (failed.1 ▸ outcome)

/-- A port that is no number, behind a pointer and two levels down. -/
theorem Converter.Standard.failures_documented_port :
    let c : Converter := {}
    let address : Ty := .struct "Address" [("port", .scalar (.int .uint16))]
    let server : Ty := .struct "Server" [("listen", .pointer address)]
    let inner : Value := .map .string .string [(.string "port", .string "eighty")]
    let src : Value := .map .string .any [(.string "LISTEN", inner)]
    let read : ConversionError := .failed .string (.scalar (.int .uint16))
      (.scalar (.literal (.malformed "eighty")))
    let error : ConversionError := .failed src.type server
      (.conversion (.failed inner.type address (.conversion read)))
    c.Standard {} ∧ c.convertWith {} src server.zero = .failed error server.zero ∧
      ∃ s d, (c.settingsOf {}).Reaches (src, server.zero) (s, d) ∧
        (c.settingsOf {}).Documented s d error ∧
        ∃ inner left, (c.settingsOf {}).convert s d = .failed inner left ∧
          inner.rootCause = error.rootCause := by
  intro c address server inner src read error
  have standard : c.Standard {} := ⟨rfl, rfl⟩
  have failed : c.convertWith {} src server.zero = .failed error server.zero := rfl
  exact ⟨standard, failed, standard.failures_documented failed⟩

end Recast
