import Sieve.Proofs.Calendar.Alphabet
import Sieve.Proofs.Filter.Comparison

/-!
# Chains of ordered values

Strings are ordered in time where both name a point in time, and by code point otherwise.  In a chain with
one string that names none the order changes from link to link, and that breaks the chain if the two other
strings are not in the same order in time as they are by code point.

* `Json.Timeless`, `Json.Discordant`, `Json.Torn`: the values for which chains can break;
* `Operator.TransitiveOn`: an operator is transitive on some values;
* `Operator.ordering_transitive`: chains hold for all other values, and for each pair of discordant strings
  there is a third one with which they break;
* `Operator.ordering_notTransitive`: three strings with which they break.
-/

namespace Sieve

/-! ### The next string -/

namespace Text

/-- A text comes before itself with one more character. -/
theorem lt_append_nul (cs : List Char) : cs < cs ++ ['\x00'] := by
  induction cs with
  | nil => exact List.nil_lt_cons _ _
  | cons c cs ih => exact List.cons_lt_cons_iff.2 (.inr ⟨rfl, ih⟩)

/-- No text lies between another and that with one more character, the least one. -/
theorem not_lt_append_nul {cs ds : List Char} (h : cs < ds) : ¬ ds < cs ++ ['\x00'] := by
  intro hlt
  induction cs generalizing ds with
  | nil =>
    cases ds with
    | nil => exact List.not_lt_nil _ h
    | cons d ds =>
      rcases List.cons_lt_cons_iff.1 hlt with hd | ⟨-, hds⟩
      · exact absurd hd (Nat.not_lt_zero _)
      · exact List.not_lt_nil _ hds
  | cons c cs ih =>
    cases ds with
    | nil => exact List.not_lt_nil _ h
    | cons d ds =>
      rcases List.cons_lt_cons_iff.1 h with hcd | ⟨rfl, hcds⟩ <;>
        rcases List.cons_lt_cons_iff.1 hlt with hdc | ⟨hdc, hdcs⟩
      · exact Char.lt_asymm hcd hdc
      · exact Char.lt_irrefl _ (hdc ▸ hcd)
      · exact Char.lt_irrefl _ hdc
      · exact ih hcds hdcs

/-- The string after a string: none lies between the two. -/
def next (s : String) : String := s ++ "\x00"

theorem toList_next (s : String) : (next s).toList = s.toList ++ ['\x00'] := String.toList_append

theorem compare_next (s : String) : compare s (next s) = .lt := by
  rw [compare_lt_iff, String.lt_iff, toList_next]
  exact lt_append_nul s.toList

/-- A greater string is the next one or comes after it. -/
theorem compare_next_of_lt {s t : String} (h : compare s t = .lt) (hne : t ≠ next s) :
    compare t (next s) = .gt := by
  cases hc : compare t (next s) with
  | gt => rfl
  | eq => exact absurd (Std.LawfulEqOrd.eq_of_compare hc) hne
  | lt =>
    rw [compare_lt_iff, String.lt_iff] at h hc
    rw [toList_next] at hc
    exact absurd hc (not_lt_append_nul h)

/-- The next string names no point in time. -/
theorem ofChars?_next (s : String) : Instant.ofChars? (next s).toList = none := by
  by_contra h
  obtain ⟨a, ha⟩ := Option.ne_none_iff_exists'.1 h
  have hnul := Instant.written_of_ofChars? ha '\x00' (by simp [toList_next])
  exact absurd hnul (by decide)

end Text

/-! ### Values that break chains -/

namespace Json

/-- A string that names no point in time. -/
def Timeless (x : Json) : Prop := ∃ s, x = str s ∧ Instant.ofChars? s.toList = none

/-- Two strings that name points in time, in another order in time than by code point. -/
def Discordant (x y : Json) : Prop :=
  ∃ s t a b, x = str s ∧ y = str t ∧ Instant.ofChars? s.toList = some a ∧
    Instant.ofChars? t.toList = some b ∧ compare a b ≠ compare s t

/-- Two discordant strings and one that names no point in time. -/
def Torn (x y z : Json) : Prop :=
  Timeless x ∧ Discordant y z ∨ Timeless y ∧ Discordant x z ∨ Timeless z ∧ Discordant x y

variable {x y z : Json}

theorem Discordant.symm (h : Discordant x y) : Discordant y x := by
  obtain ⟨s, t, a, b, rfl, rfl, ha, hb, hne⟩ := h
  refine ⟨t, s, b, a, rfl, rfl, hb, ha, fun he => hne ?_⟩
  rw [Std.OrientedOrd.eq_swap (a := a), he, ← Std.OrientedOrd.eq_swap]

theorem not_discordant_of_timeless (h : Timeless x) (y : Json) : ¬ Discordant x y := by
  rintro ⟨s, t, a, b, rfl, rfl, ha, -, -⟩
  obtain ⟨s', hs, hnone⟩ := h
  cases hs
  rw [ha] at hnone
  cases hnone

/-- Strings that are not discordant are ordered by code point. -/
theorem order?_of_not_discordant {s t : String} (h : ¬ Discordant (str s) (str t)) :
    order? (str s) (str t) = some (compare s t) := by
  obtain ⟨a, b, ha, hb⟩ | hnone := instants_or_texts s t
  · rw [order?_instants ha hb, Option.some.injEq]
    by_contra hne
    exact h ⟨s, t, a, b, rfl, rfl, ha, hb, hne⟩
  · exact order?_texts hnone

end Json

namespace Operator

open Json

variable {x y z : Json}

/-- An operator is transitive on some values, in whatever order they come. -/
def TransitiveOn (op : Operator) (vs : List Json) : Prop :=
  ∀ x ∈ vs, ∀ y ∈ vs, ∀ z ∈ vs, op.Relates x y → op.Relates y z → op.Relates x z

theorem TransitiveOn.of_subset {op : Operator} {vs ws : List Json} (h : op.TransitiveOn ws) (hs : vs ⊆ ws) :
    op.TransitiveOn vs :=
  fun x hx y hy z hz => h x (hs hx) y (hs hy) z (hs hz)

/-- Only values that are ordered are less or at most other ones. -/
theorem comparable_of_relates {op : Operator} (hop : op ∈ ordering) (h : op.Relates x y) :
    x.Comparable y := by
  by_contra hc
  have hfalse : op.holds (some x) y = false := by
    refine holds_of_not_comparable ?_ hop
    rintro z ⟨⟩
    exact hc
  rw [Relates, hfalse] at h
  cases h

/-- The operators that hold of values in increasing order. -/
def increasing : List Operator := [less, atMost]

theorem mem_ordering_of_increasing {op : Operator} (h : op ∈ increasing) : op ∈ ordering := by
  revert h
  cases op <;> decide

/-- Chains hold if one order tells all three pairs of values. -/
theorem relates_trans_of_compare {α : Type} [Ord α] [Std.TransOrd α] {a b c : α}
    (hxy : x.order? y = some (compare a b)) (hyz : y.order? z = some (compare b c))
    (hxz : x.order? z = some (compare a c)) {op : Operator} (hop : op ∈ increasing) (h : op.Relates x y)
    (h' : op.Relates y z) : op.Relates x z := by
  cases op with
  | less =>
    rw [relates_less_iff, hxy, Option.some.injEq] at h
    rw [relates_less_iff, hyz, Option.some.injEq] at h'
    rw [relates_less_iff, hxz, Option.some.injEq]
    exact Std.TransCmp.lt_trans h h'
  | atMost =>
    obtain ⟨o, ho, hle⟩ := (relates_atMost_iff x y).1 h
    obtain ⟨o', ho', hle'⟩ := (relates_atMost_iff y z).1 h'
    cases hxy.symm.trans ho
    cases hyz.symm.trans ho'
    exact (relates_atMost_iff x z).2 ⟨_, hxz, Std.TransOrd.isLE_trans hle hle'⟩
  | _ => exact absurd hop (by decide)

/-- Strings of which no two are discordant are ordered by code point, and chains of them hold. -/
theorem relates_trans_of_texts {s t u : String} (hst : ¬ Discordant (str s) (str t))
    (htu : ¬ Discordant (str t) (str u)) (hsu : ¬ Discordant (str s) (str u)) {op : Operator}
    (hop : op ∈ increasing) (h : op.Relates (str s) (str t)) (h' : op.Relates (str t) (str u)) :
    op.Relates (str s) (str u) :=
  relates_trans_of_compare (order?_of_not_discordant hst) (order?_of_not_discordant htu)
    (order?_of_not_discordant hsu) hop h h'

theorem relates_trans_of_strings {s t u : String} (htorn : ¬ Torn (str s) (str t) (str u)) {op : Operator}
    (hop : op ∈ increasing) (h : op.Relates (str s) (str t)) (h' : op.Relates (str t) (str u)) :
    op.Relates (str s) (str u) := by
  cases hs : Instant.ofChars? s.toList with
  | none =>
    have hs : Timeless (str s) := ⟨s, rfl, hs⟩
    exact relates_trans_of_texts (not_discordant_of_timeless hs _) (fun hd => htorn (.inl ⟨hs, hd⟩))
      (not_discordant_of_timeless hs _) hop h h'
  | some a =>
    cases ht : Instant.ofChars? t.toList with
    | none =>
      have ht : Timeless (str t) := ⟨t, rfl, ht⟩
      exact relates_trans_of_texts (fun hd => not_discordant_of_timeless ht _ hd.symm)
        (not_discordant_of_timeless ht _) (fun hd => htorn (.inr (.inl ⟨ht, hd⟩))) hop h h'
    | some b =>
      cases hu : Instant.ofChars? u.toList with
      | none =>
        have hu : Timeless (str u) := ⟨u, rfl, hu⟩
        exact relates_trans_of_texts (fun hd => htorn (.inr (.inr ⟨hu, hd⟩)))
          (fun hd => not_discordant_of_timeless hu _ hd.symm)
          (fun hd => not_discordant_of_timeless hu _ hd.symm) hop h h'
      | some c =>
        exact relates_trans_of_compare (order?_instants hs ht) (order?_instants ht hu)
          (order?_instants hs hu) hop h h'

/-- Chains of values that are not torn hold. -/
theorem relates_trans (htorn : ¬ Torn x y z) {op : Operator} (hop : op ∈ increasing) (h : op.Relates x y)
    (h' : op.Relates y z) : op.Relates x z := by
  have hxy := comparable_of_relates (mem_ordering_of_increasing hop) h
  have hyz := comparable_of_relates (mem_ordering_of_increasing hop) h'
  cases hxy with
  | numbers m n =>
    cases hyz with
    | numbers _ o =>
      exact relates_trans_of_compare (order?_num m n) (order?_num n o) (order?_num m o) hop h h'
  | strings s t =>
    cases hyz with
    | strings _ u => exact relates_trans_of_strings htorn hop h h'
  | truths a b =>
    cases hyz with
    | truths _ c =>
      exact relates_trans_of_compare (order?_bool a b) (order?_bool b c) (order?_bool a c) hop h h'

/-- Two strings that name points in time, the first not after the second in time and after it by code
point, break a chain with the string next to the second. -/
theorem not_transitiveOn_next {s t : String} {a b : Instant} (ha : Instant.ofChars? s.toList = some a)
    (hb : Instant.ofChars? t.toList = some b) (htime : compare a b ≠ .gt) (htext : compare t s = .lt)
    {op : Operator} (hop : op ∈ increasing) : ¬ op.TransitiveOn [str s, str t, str (Text.next t)] := by
  have hnext := Text.ofChars?_next t
  have hne : s ≠ Text.next t := by
    rintro rfl
    rw [hnext] at ha
    cases ha
  have hst : order? (str s) (str t) = some (compare a b) := order?_instants ha hb
  have htz : order? (str t) (str (Text.next t)) = some .lt := by
    rw [order?_texts (.inr hnext), Text.compare_next]
  have hsz : order? (str s) (str (Text.next t)) = some .gt := by
    rw [order?_texts (.inr hnext), Text.compare_next_of_lt htext hne]
  intro h
  cases op with
  | less =>
    cases hab : compare a b with
    | lt =>
      have hless := h (str s) (by simp) (str t) (by simp) (str (Text.next t)) (by simp)
        ((relates_less_iff _ _).2 (hab ▸ hst)) ((relates_less_iff _ _).2 htz)
      rw [relates_less_iff, hsz] at hless
      cases hless
    | eq =>
      -- of one point in time neither string is less, though the next one is between them
      have hzs : order? (str (Text.next t)) (str s) = some .lt := by rw [order?_swap (str s), hsz]; rfl
      have hts : order? (str t) (str s) = some .eq := by rw [order?_swap (str s), hst, hab]; rfl
      have hless := h (str t) (by simp) (str (Text.next t)) (by simp) (str s) (by simp)
        ((relates_less_iff _ _).2 htz) ((relates_less_iff _ _).2 hzs)
      rw [relates_less_iff, hts] at hless
      cases hless
    | gt => exact htime hab
  | atMost =>
    have hle : (compare a b).isLE = true := Ordering.isLE_iff_ne_gt.2 htime
    have hatMost := h (str s) (by simp) (str t) (by simp) (str (Text.next t)) (by simp)
      ((relates_atMost_iff _ _).2 ⟨_, hst, hle⟩) ((relates_atMost_iff _ _).2 ⟨_, htz, rfl⟩)
    obtain ⟨o, ho, hle'⟩ := (relates_atMost_iff _ _).1 hatMost
    cases hsz.symm.trans ho
    cases hle'
  | _ => exact absurd hop (by decide)

/-- With two discordant strings there is always a third one with which chains break. -/
theorem exists_not_transitiveOn (h : Discordant x y) :
    ∃ z, Timeless z ∧ ∀ op ∈ increasing, ¬ op.TransitiveOn [x, y, z] := by
  obtain ⟨s, t, a, b, rfl, rfl, ha, hb, hne⟩ := h
  cases hst : compare s t with
  | eq =>
    cases Std.LawfulEqOrd.eq_of_compare hst
    cases ha.symm.trans hb
    exact absurd (Std.ReflOrd.compare_self.trans hst.symm) hne
  | gt =>
    refine ⟨str (Text.next t), ⟨_, rfl, Text.ofChars?_next t⟩, fun op hop => ?_⟩
    exact not_transitiveOn_next ha hb (hst ▸ hne) (Std.OrientedCmp.lt_of_gt hst) hop
  | lt =>
    refine ⟨str (Text.next s), ⟨_, rfl, Text.ofChars?_next s⟩, fun op hop hall => ?_⟩
    have htime : compare b a ≠ .gt := fun hgt => hne ((Std.OrientedCmp.lt_of_gt hgt).trans hst.symm)
    refine not_transitiveOn_next hb ha htime hst hop (hall.of_subset ?_)
    simp

/-- **Less and at most are transitive but for three strings of which two name points in time, in another
order in time than by code point, and one names none.  For any two such strings there is a third one with
which neither operator is transitive.** -/
theorem ordering_transitive :
    (∀ x y z : Json, ¬ Torn x y z →
      (less.Relates x y → less.Relates y z → less.Relates x z) ∧
      (atMost.Relates x y → atMost.Relates y z → atMost.Relates x z)) ∧
    ∀ x y : Json, Discordant x y →
      ∃ z, Timeless z ∧ ¬ less.TransitiveOn [x, y, z] ∧ ¬ atMost.TransitiveOn [x, y, z] := by
  refine ⟨fun x y z h => ⟨?_, ?_⟩, fun x y h => ?_⟩
  · exact relates_trans h (by decide)
  · exact relates_trans h (by decide)
  · obtain ⟨z, hz, hbroken⟩ := exists_not_transitiveOn h
    exact ⟨z, hz, hbroken less (by decide), hbroken atMost (by decide)⟩

/-- Points in time with different offsets make a chain, in another order than by code point; days of one
month, with and without leading zeros, are discordant. -/
theorem ordering_transitive_days :
    (less.Relates (.str "2024-01-15T10:00:00+08:00") (.str "2024-01-15T09:00:00Z") ∧
      less.Relates (.str "2024-01-15T09:00:00Z") (.str "2024-1-16") ∧
      less.Relates (.str "2024-01-15T10:00:00+08:00") (.str "2024-1-16")) ∧
    Discordant (.str "2024-1-9") (.str "2024-01-10") ∧
    ∃ z, ¬ less.TransitiveOn [.str "2024-1-9", .str "2024-01-10", z] := by
  obtain ⟨hchains, hbroken⟩ := ordering_transitive
  have hxy : less.Relates (.str "2024-01-15T10:00:00+08:00") (.str "2024-01-15T09:00:00Z") := by decide +kernel
  have hyz : less.Relates (.str "2024-01-15T09:00:00Z") (.str "2024-1-16") := by decide +kernel
  have htorn : ¬ Torn (.str "2024-01-15T10:00:00+08:00") (.str "2024-01-15T09:00:00Z") (.str "2024-1-16") := by
    rintro (⟨⟨s, hs, hnone⟩, -⟩ | ⟨⟨s, hs, hnone⟩, -⟩ | ⟨⟨s, hs, hnone⟩, -⟩) <;> cases hs <;>
      exact absurd hnone (by decide +kernel)
  have hdays : Discordant (.str "2024-1-9") (.str "2024-01-10") :=
    ⟨"2024-1-9", "2024-01-10", Instant.ofDate ⟨2024, 1, 9⟩, Instant.ofDate ⟨2024, 1, 10⟩, rfl, rfl,
      by decide +kernel, by decide +kernel, by decide +kernel⟩
  obtain ⟨z, -, hless, -⟩ := hbroken _ _ hdays
  exact ⟨⟨hxy, hyz, (hchains _ _ _ htorn).1 hxy hyz⟩, hdays, z, hless⟩

/-- Days of one month, with and without leading zeros, and a text that is no date: the chain breaks. -/
theorem ordering_notTransitive :
    (less.Relates (.str "2024-1-9") (.str "2024-01-10") ∧ less.Relates (.str "2024-01-10") (.str "2024-05x") ∧
      ¬ less.Relates (.str "2024-1-9") (.str "2024-05x")) ∧
    (atMost.Relates (.str "2024-1-9") (.str "2024-01-10") ∧ atMost.Relates (.str "2024-01-10") (.str "2024-05x") ∧
      ¬ atMost.Relates (.str "2024-1-9") (.str "2024-05x")) := by
  decide +kernel

end Operator

end Sieve
