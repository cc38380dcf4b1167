import Mathlib.Data.List.Induction
import Recast.Native.Convert

/-!
Keys of native maps. Where keys have an order it is a strict one of the elements
(`Native.Ordered.lawful`), so an entry is put over the one of the same key and of no other. The
elements of a map have keys of their own, listed by key where the map lists them.
-/

namespace Recast

namespace Native

/-! ## Types of keys -/

/-- The elements have an order. Floating-point numbers have none, nor have values and maps without
an order of their own. -/
def ordered : Native → Bool
  | .scalar (.float _) | .value | .hashMap _ _ => false
  | .scalar _ => true
  | .list t | .option t => t.ordered
  | .orderedMap k v => k.ordered && v.ordered

/-- The keys of every map have an order. -/
def keyed : Native → Bool
  | .scalar _ | .value => true
  | .list t | .option t => t.keyed
  | .hashMap k v | .orderedMap k v => k.ordered && v.keyed

/-- The elements of a type as they come about: no key of a map is there twice, and the entries of an
ordered map are listed by key. -/
def Element : (t : Native) → t.Carrier → Prop
  | .scalar _, _ | .value, _ => True
  | .list t, (xs : List t.Carrier) => ∀ x ∈ xs, t.Element x
  | .option t, (x : Option t.Carrier) => ∀ y ∈ x, t.Element y
  | .hashMap k v, (entries : List (k.Carrier × v.Carrier)) =>
    (∀ e ∈ entries, k.Element e.1 ∧ v.Element e.2) ∧
      entries.Pairwise fun a b => k.compare a.1 b.1 ≠ .eq
  | .orderedMap k v, (entries : List (k.Carrier × v.Carrier)) =>
    (∀ e ∈ entries, k.Element e.1 ∧ v.Element e.2) ∧
      entries.Pairwise fun a b => k.compare a.1 b.1 = .lt

theorem keyed_of_ordered {t : Native} (h : t.ordered = true) : t.keyed = true := by
  induction t with
  | scalar | value => rfl
  | list t ih | option t ih => exact ih h
  | hashMap => cases h
  | orderedMap k v _ ih =>
    obtain ⟨hk, hv⟩ := Bool.and_eq_true_iff.1 h
    exact Bool.and_eq_true_iff.2 ⟨hk, ih hv⟩

/-! ## The order of keys -/

/-- The order of two components, one after the other. -/
def comparePairs {α β : Type} (first : α → α → Ordering) (second : β → β → Ordering)
    (a b : α × β) : Ordering :=
  (first a.1 b.1).then (second a.2 b.2)

/-- An order in which only an element itself is equal to it. -/
structure Lawful {α : Type} (compare : α → α → Ordering) : Prop where
  trans : Std.TransCmp compare
  eq : Std.LawfulEqCmp compare

namespace Lawful

variable {α β : Type} {compare : α → α → Ordering}

theorem of_injective [Ord β] [Std.TransOrd β] [Std.LawfulEqOrd β] {f : α → β}
    (h : Function.Injective f) : Lawful fun a b => Ord.compare (f a) (f b) where
  trans := inferInstanceAs (Std.TransCmp (compareOn f))
  eq :=
    { compare_self := Std.ReflCmp.compare_self
      eq_of_compare := fun same => h (Std.LawfulEqCmp.eq_of_compare same) }

theorem compareLists_eq (compare : α → α → Ordering) :
    compareLists compare = List.compareLex compare := by
  funext as bs
  induction as generalizing bs with
  | nil => cases bs <;> rfl
  | cons a as ih =>
    cases bs with
    | nil => rfl
    | cons b bs => rw [compareLists, List.compareLex_cons_cons, ih]

theorem lists (h : Lawful compare) : Lawful (compareLists compare) := by
  have := h.trans
  have := h.eq
  rw [compareLists_eq]
  exact ⟨inferInstance, inferInstance⟩

theorem pairs (h : Lawful compare) {compare' : β → β → Ordering} (h' : Lawful compare') :
    Lawful (comparePairs compare compare') where
  trans := by
    have := h.trans
    have := h'.trans
    have first : Std.TransCmp fun a b : α × β => compare a.1 b.1 :=
      { eq_swap := Std.OrientedCmp.eq_swap, isLE_trans := Std.TransCmp.isLE_trans }
    have second : Std.TransCmp fun a b : α × β => compare' a.2 b.2 :=
      { eq_swap := Std.OrientedCmp.eq_swap, isLE_trans := Std.TransCmp.isLE_trans }
    exact inferInstanceAs (Std.TransCmp (compareLex _ _))
  eq :=
    { compare_self := by
        simp [comparePairs, h.eq.compare_self, h'.eq.compare_self]
      eq_of_compare := by
        intro a b same
        rw [comparePairs, Ordering.then_eq_eq] at same
        exact Prod.ext (h.eq.eq_of_compare same.1) (h'.eq.eq_of_compare same.2) }

theorem options (h : Lawful compare) {compare' : Option α → Option α → Ordering}
    (none_none : compare' none none = .eq) (none_some : ∀ a, compare' none (some a) = .lt)
    (some_none : ∀ a, compare' (some a) none = .gt)
    (some_some : ∀ a b, compare' (some a) (some b) = compare a b) : Lawful compare' where
  trans :=
    { eq_swap := by
        have := h.trans
        rintro (_ | a) (_ | b) <;> simp only [none_none, none_some, some_none, some_some]
        · rfl
        · rfl
        · rfl
        · exact Std.OrientedCmp.eq_swap
      isLE_trans := by
        have := h.trans
        rintro (_ | a) (_ | b) (_ | c) <;>
          simp only [none_none, none_some, some_none, some_some] <;> intro left right
        all_goals first | rfl | contradiction | exact Std.TransCmp.isLE_trans left right }
  eq :=
    { compare_self := by
        rintro (_ | a)
        · exact none_none
        · rw [some_some, h.eq.compare_self]
      eq_of_compare := by
        rintro (_ | a) (_ | b) same
        · rfl
        · simp [none_some] at same
        · simp [some_none] at same
        · rw [some_some] at same
          rw [h.eq.eq_of_compare same] }

variable (h : Lawful compare)
include h

theorem eq_iff {a b : α} : compare a b = .eq ↔ a = b :=
  have := h.eq
  Std.LawfulEqCmp.compare_eq_iff_eq

theorem gt_iff {a b : α} : compare a b = .gt ↔ compare b a = .lt :=
  have := h.trans
  Std.OrientedCmp.gt_iff_lt

theorem lt_trans {a b c : α} (hab : compare a b = .lt) (hbc : compare b c = .lt) :
    compare a c = .lt :=
  have := h.trans
  Std.TransCmp.lt_trans hab hbc

end Lawful

/-- **Keys are told apart by their order.** -/
theorem lawful_compare {t : Native} (h : t.ordered = true) : Lawful t.compare := by
  induction t with
  | scalar k =>
    cases k with
    | bool => exact Lawful.of_injective (α := Bool) Function.injective_id
    | int k =>
      refine Lawful.of_injective (f := k.value) fun a b same => ?_
      rw [← k.wrap_value a, same, k.wrap_value]
    | string => exact Lawful.of_injective (α := String) Function.injective_id
    | float => cases h
  | value | hashMap => cases h
  | list t ih => exact (ih h).lists
  | option t ih => exact (ih h).options rfl (fun _ => rfl) (fun _ => rfl) fun _ _ => rfl
  | orderedMap k v ihKey ihValue =>
    obtain ⟨hk, hv⟩ := Bool.and_eq_true_iff.1 h
    exact ((ihKey hk).pairs (ihValue hv)).lists

end Native

/-! ## Putting entries -/

section
variable {α β : Type}

/-- Entries that are put one after the other. -/
def putAll (put : α → β → List (α × β) → List (α × β)) (pairs : List (α × β)) : List (α × β) :=
  pairs.foldl (fun entries p => put p.1 p.2 entries) []

/-- The entries are some of the pairs, and no key of the pairs is lost. -/
structure Collects (pairs entries : List (α × β)) : Prop where
  mem : ∀ e ∈ entries, e ∈ pairs
  key : ∀ p ∈ pairs, p.1 ∈ entries.map (·.1)

theorem Collects.trans {pairs between entries : List (α × β)} (h : Collects pairs between)
    (h' : Collects between entries) : Collects pairs entries := by
  refine ⟨fun e he => h.mem e (h'.mem e he), fun p hp => ?_⟩
  obtain ⟨d, hd, same⟩ := List.mem_map.1 (h.key p hp)
  exact same ▸ h'.key d hd

/-- An entry is put over the first one of its key, or in front of some entry, or at the end. The
keys are ones that `Q` admits. -/
structure Puts (Q : α → Prop) (put : α → β → List (α × β) → List (α × β)) : Prop where
  nil : ∀ key v, put key v [] = [(key, v)]
  cons : ∀ key v d entries, Q key → Q d.1 →
    d.1 = key ∧ put key v (d :: entries) = (key, v) :: entries ∨
      put key v (d :: entries) = (key, v) :: d :: entries ∨
      put key v (d :: entries) = d :: put key v entries

variable {Q : α → Prop} {put : α → β → List (α × β) → List (α × β)} {pairs : List (α × β)}

theorem putAll_concat (pairs : List (α × β)) (p : α × β) :
    putAll put (pairs ++ [p]) = put p.1 p.2 (putAll put pairs) := by
  simp [putAll]

theorem putAll_invariant {P : List (α × β) → Prop} (nil : P [])
    (step : ∀ key v entries, P entries → P (put key v entries)) (pairs : List (α × β)) :
    P (putAll put pairs) := by
  induction pairs using List.reverseRecOn with
  | nil => exact nil
  | append_singleton pairs p ih => exact putAll_concat pairs p ▸ step _ _ _ ih

/-- Entries that are put beside one another make the list that they come from. -/
theorem putAll_of_pairwise {R : α × β → α × β → Prop}
    (append : ∀ entries e, (∀ d ∈ entries, R d e) → put e.1 e.2 entries = entries ++ [e])
    (h : pairs.Pairwise R) : putAll put pairs = pairs := by
  induction pairs using List.reverseRecOn with
  | nil => rfl
  | append_singleton pairs p ih =>
    rw [List.pairwise_append] at h
    rw [putAll_concat, ih h.1]
    exact append pairs p fun d hd => h.2.2 d hd p (List.mem_singleton_self p)

namespace Puts

variable (h : Puts Q put) {key : α} {v : β} {entries : List (α × β)}
include h

theorem of_mem (hk : Q key) (hq : ∀ e ∈ entries, Q e.1) :
    ∀ e ∈ put key v entries, e = (key, v) ∨ e ∈ entries := by
  induction entries with
  | nil => simp [h.nil]
  | cons d entries ih =>
    obtain ⟨head, rest⟩ := List.forall_mem_cons.1 hq
    intro e he
    rcases h.cons key v d entries hk head with ⟨-, instead⟩ | before | beyond
    · rw [instead] at he
      exact (List.mem_cons.1 he).imp_right (List.mem_cons_of_mem d)
    · rw [before] at he
      exact List.mem_cons.1 he
    · rw [beyond] at he
      rcases List.mem_cons.1 he with rfl | he
      · exact .inr List.mem_cons_self
      · exact (ih rest e he).imp_right (List.mem_cons_of_mem d)

theorem key_mem (hk : Q key) (hq : ∀ e ∈ entries, Q e.1) {k : α}
    (known : k = key ∨ k ∈ entries.map (·.1)) : k ∈ (put key v entries).map (·.1) := by
  induction entries with
  | nil => simpa [h.nil] using known
  | cons d entries ih =>
    obtain ⟨head, rest⟩ := List.forall_mem_cons.1 hq
    simp only [List.map_cons, List.mem_cons] at known
    rcases h.cons key v d entries hk head with ⟨same, instead⟩ | before | beyond
    · rw [instead]
      simpa [same, ← or_assoc] using known
    · rw [before]
      simpa using known
    · rw [beyond, List.map_cons, List.mem_cons]
      rcases known with known | here | known
      · exact .inr (ih rest (.inl known))
      · exact .inl here
      · exact .inr (ih rest (.inr known))

/-- Entries are collected from pairs that are put one after the other. -/
theorem collects (hq : ∀ p ∈ pairs, Q p.1) : Collects pairs (putAll put pairs) := by
  induction pairs using List.reverseRecOn with
  | nil => exact ⟨fun _ he => he, by simp⟩
  | append_singleton pairs p ih =>
    obtain ⟨front, last⟩ := List.forall_mem_append.1 hq
    have known := ih front
    have here := last p (List.mem_singleton_self p)
    have there : ∀ e ∈ putAll put pairs, Q e.1 := fun e he => front e (known.mem e he)
    rw [putAll_concat]
    constructor
    · intro e he
      rcases h.of_mem here there e he with rfl | he
      · simp
      · exact List.mem_append_left _ (known.mem e he)
    · intro q hq
      apply h.key_mem here there
      rcases List.mem_append.1 hq with hq | hq
      · exact .inr (known.key q hq)
      · exact .inl (by rw [List.mem_singleton.1 hq])

end Puts

end

namespace Native

section
variable {α β : Type} {compare : α → α → Ordering} {key : α} {v : β} {entries : List (α × β)}

theorem insertAtEnd_append (h : ∀ d ∈ entries, compare key d.1 ≠ .eq) :
    insertAtEnd compare key v entries = entries ++ [(key, v)] := by
  induction entries with
  | nil => rfl
  | cons d entries ih =>
    obtain ⟨head, rest⟩ := List.forall_mem_cons.1 h
    rw [insertAtEnd, if_neg (by simpa using head), ih rest, List.cons_append]

theorem insertByKey_append (h : ∀ d ∈ entries, compare key d.1 = .gt) :
    insertByKey compare key v entries = entries ++ [(key, v)] := by
  induction entries with
  | nil => rfl
  | cons d entries ih =>
    obtain ⟨head, rest⟩ := List.forall_mem_cons.1 h
    rw [insertByKey, head, ih rest, List.cons_append]

variable (lawful : Lawful compare)
include lawful

theorem insertAtEnd_puts (β : Type) : Puts (fun _ => True) (insertAtEnd compare (β := β)) := by
  refine ⟨fun _ _ => rfl, fun key v d entries _ _ => ?_⟩
  rw [insertAtEnd]
  split
  · next same =>
    rw [beq_iff_eq, lawful.eq_iff] at same
    exact .inl ⟨same.symm, by rw [same]⟩
  · exact .inr (.inr rfl)

theorem insertByKey_puts (β : Type) : Puts (fun _ => True) (insertByKey compare (β := β)) := by
  refine ⟨fun _ _ => rfl, fun key v d entries _ _ => ?_⟩
  rw [insertByKey]
  split
  · exact .inr (.inl rfl)
  · next same =>
    rw [lawful.eq_iff] at same
    exact .inl ⟨same.symm, by rw [same]⟩
  · exact .inr (.inr rfl)

/-- Entries with keys of their own are put at the end, one after the other. -/
theorem putAll_insertAtEnd (h : entries.Pairwise fun a b => compare a.1 b.1 ≠ .eq) :
    putAll (insertAtEnd compare) entries = entries := by
  refine putAll_of_pairwise (fun entries e apart => insertAtEnd_append fun d hd => ?_) h
  have other := apart d hd
  rw [ne_eq, lawful.eq_iff] at other ⊢
  exact fun same => other same.symm

theorem putAll_insertByKey (h : entries.Pairwise fun a b => compare a.1 b.1 = .lt) :
    putAll (insertByKey compare) entries = entries :=
  putAll_of_pairwise (fun _ _ sorted =>
    insertByKey_append fun d hd => lawful.gt_iff.2 (sorted d hd)) h

theorem insertAtEnd_apart (h : entries.Pairwise fun a b => compare a.1 b.1 ≠ .eq) :
    (insertAtEnd compare key v entries).Pairwise fun a b => compare a.1 b.1 ≠ .eq := by
  induction h with
  | nil => exact List.pairwise_singleton _ _
  | @cons d entries apart rest ih =>
    rw [insertAtEnd]
    split
    · exact .cons apart rest
    · next other =>
      refine .cons (fun e he => ?_) ih
      rcases (insertAtEnd_puts lawful β).of_mem trivial (fun _ _ => trivial) e he with rfl | he
      · rw [beq_iff_eq, lawful.eq_iff] at other
        rw [ne_eq, lawful.eq_iff]
        exact fun same => other same.symm
      · exact apart e he

theorem insertByKey_sorted (h : entries.Pairwise fun a b => compare a.1 b.1 = .lt) :
    (insertByKey compare key v entries).Pairwise fun a b => compare a.1 b.1 = .lt := by
  induction h with
  | nil => exact List.pairwise_singleton _ _
  | @cons d entries sorted rest ih =>
    rw [insertByKey]
    split
    · next lower =>
      refine .cons (List.forall_mem_cons.2 ⟨lower, fun e he => ?_⟩) (.cons sorted rest)
      exact lawful.lt_trans lower (sorted e he)
    · exact .cons sorted rest
    · next greater =>
      refine .cons (fun e he => ?_) ih
      rcases (insertByKey_puts lawful β).of_mem trivial (fun _ _ => trivial) e he with rfl | he
      · exact lawful.gt_iff.1 greater
      · exact sorted e he

end

end Native

end Recast
