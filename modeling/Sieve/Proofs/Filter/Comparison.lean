import Sieve.Filter.Condition

/-!
# Ordered comparison

Two numbers, two strings and two truth values are ordered, and no other two values are.  The four operators
that ask for an order see the same one: what one of them says is told by what another says.

* `Binary64`, `Instant`: their orders are lawful, and no two points in time are of one rank;
* `Json.Comparable`: the values that are ordered (`Json.isSome_order?_iff`);
* `Json.order?_swap`: the order of two values, seen from the other side;
* `Operator.ordering_coherent`: what less, greater, at most and at least say of two values.
-/

namespace Sieve

/-! ### Orders -/

instance : Std.TransOrd Binary64 := inferInstanceAs (Std.TransCmp (compareOn Binary64.signedSteps))

/-- Numbers are of one rank if they are of one value. -/
theorem Binary64.compare_eq_iff (x y : Binary64) : compare x y = .eq ↔ (x == y) = true :=
  (Std.LawfulEqOrd.compare_eq_iff_eq (a := x.signedSteps)).trans beq_iff_eq.symm

instance : Std.TransOrd Instant :=
  inferInstanceAs (Std.TransCmp (compareLex (compareOn Instant.second) (compareOn Instant.nanosecond)))

namespace Text

theorem compare_lt_iff (s t : String) : compare s t = .lt ↔ s < t := compareOfLessAndEq_eq_lt

theorem compare_gt_iff (s t : String) : compare s t = .gt ↔ t < s :=
  Std.OrientedCmp.gt_iff_lt.trans (compare_lt_iff t s)

end Text

namespace Json

/-- Two values of which the order is known. -/
inductive Comparable : Json → Json → Prop
  | numbers (m n : Number) : Comparable (num m) (num n)
  | strings (s t : String) : Comparable (str s) (str t)
  | truths (a b : Bool) : Comparable (bool a) (bool b)

theorem order?_num (m n : Number) : order? (num m) (num n) = some (compare m.toBinary64 n.toBinary64) := rfl

theorem order?_bool (a b : Bool) : order? (bool a) (bool b) = some (compare a b) := rfl

/-- Strings that name points in time are ordered as these. -/
theorem order?_instants {s t : String} {a b : Instant} (ha : Instant.ofChars? s.toList = some a)
    (hb : Instant.ofChars? t.toList = some b) : order? (str s) (str t) = some (compare a b) := by
  simp only [order?, ha, hb]

/-- Strings are ordered by code point if one of them names no point in time. -/
theorem order?_texts {s t : String}
    (h : Instant.ofChars? s.toList = none ∨ Instant.ofChars? t.toList = none) :
    order? (str s) (str t) = some (compare s t) := by
  cases ha : Instant.ofChars? s.toList with
  | none => simp only [order?, ha]
  | some a => simp only [order?, ha, h.resolve_left (by simp [ha])]

/-- Two strings both name points in time, or one of them names none. -/
theorem instants_or_texts (s t : String) :
    (∃ a b, Instant.ofChars? s.toList = some a ∧ Instant.ofChars? t.toList = some b) ∨
      (Instant.ofChars? s.toList = none ∨ Instant.ofChars? t.toList = none) := by
  cases ha : Instant.ofChars? s.toList with
  | none => exact .inr (.inl rfl)
  | some a =>
    cases hb : Instant.ofChars? t.toList with
    | none => exact .inr (.inr rfl)
    | some b => exact .inl ⟨a, b, rfl, rfl⟩

/-- Two values are of kinds that are ordered, or there is no order of them on either side. -/
theorem comparable_or_not_ordered (x y : Json) :
    Comparable x y ∨ order? x y = none ∧ order? y x = none := by
  cases x with
  | num m =>
    cases y with
    | num n => exact .inl (.numbers m n)
    | _ => exact .inr ⟨rfl, rfl⟩
  | str s =>
    cases y with
    | str t => exact .inl (.strings s t)
    | _ => exact .inr ⟨rfl, rfl⟩
  | bool a =>
    cases y with
    | bool b => exact .inl (.truths a b)
    | _ => exact .inr ⟨rfl, rfl⟩
  | _ => cases y <;> exact .inr ⟨rfl, rfl⟩

theorem isSome_order?_iff (x y : Json) : (order? x y).isSome = true ↔ Comparable x y := by
  constructor
  · intro h
    rcases comparable_or_not_ordered x y with hc | ⟨hnone, -⟩
    · exact hc
    · rw [hnone] at h
      cases h
  · rintro (⟨m, n⟩ | ⟨s, t⟩ | ⟨a, b⟩)
    · rfl
    · obtain ⟨a, b, ha, hb⟩ | h := instants_or_texts s t
      · rw [order?_instants ha hb]
        rfl
      · rw [order?_texts h]
        rfl
    · rfl

/-- From the other side the order of two values is the opposite one. -/
theorem order?_swap (x y : Json) : order? y x = (order? x y).map Ordering.swap := by
  rcases comparable_or_not_ordered x y with (⟨m, n⟩ | ⟨s, t⟩ | ⟨a, b⟩) | ⟨h, h'⟩
  · rw [order?_num, order?_num, Option.map_some, ← Std.OrientedOrd.eq_swap]
  · obtain ⟨a, b, ha, hb⟩ | h := instants_or_texts s t
    · rw [order?_instants ha hb, order?_instants hb ha, Option.map_some, ← Std.OrientedOrd.eq_swap]
    · rw [order?_texts h, order?_texts h.symm, Option.map_some, ← Std.OrientedOrd.eq_swap]
  · rw [order?_bool, order?_bool, Option.map_some, ← Std.OrientedOrd.eq_swap]
  · rw [h, h']
    rfl

/-- Numbers and truth values are of one rank if they are equal. -/
theorem order?_eq_iff_equates {x y : Json}
    (h : (∃ m n, x = num m ∧ y = num n) ∨ ∃ a b, x = bool a ∧ y = bool b) :
    order? x y = some .eq ↔ equates x y = true := by
  rcases h with ⟨m, n, rfl, rfl⟩ | ⟨a, b, rfl, rfl⟩
  · rw [order?_num, Option.some.injEq]
    exact Binary64.compare_eq_iff _ _
  · rw [order?_bool, Option.some.injEq, Std.LawfulEqOrd.compare_eq_iff_eq]
    exact beq_iff_eq.symm

end Json

/-! ### What the operators say -/

namespace Operator

/-- An operator relates the value of a field to the value of a rule. -/
def Relates (op : Operator) (x y : Json) : Prop := op.holds (some x) y = true

instance (op : Operator) (x y : Json) : Decidable (op.Relates x y) :=
  inferInstanceAs (Decidable (op.holds (some x) y = true))

theorem ordered_some (accept : Ordering → Bool) (x y : Json) :
    ordered accept (some x) y = (x.order? y).any accept := by
  cases h : x.order? y <;> simp [ordered, h]

/-- A field is less than a value if that is how the two are ordered. -/
theorem relates_less_iff (x y : Json) : less.Relates x y ↔ x.order? y = some .lt := by
  rw [Relates, holds, ordered_some]
  cases x.order? y with
  | none => exact ⟨nofun, nofun⟩
  | some o => cases o <;> decide

/-- A field is at most a value if it is ordered, and not as greater. -/
theorem relates_atMost_iff (x y : Json) :
    atMost.Relates x y ↔ ∃ o, x.order? y = some o ∧ o.isLE = true := by
  rw [Relates, holds, ordered_some, Option.any_eq_true]

/-- The operators that ask for an order. -/
def ordering : List Operator := [less, atMost, greater, atLeast]

/-- Values that are not ordered are in none of the four relations. -/
theorem holds_of_not_comparable {field : Option Json} {value : Json}
    (h : ∀ x ∈ field, ¬ x.Comparable value) {op : Operator} (hop : op ∈ ordering) :
    op.holds field value = false := by
  have hordered : ∀ accept, ordered accept field value = false := by
    intro accept
    cases field with
    | none => rfl
    | some x =>
      obtain ⟨hnone, -⟩ := (x.comparable_or_not_ordered value).resolve_left (h x rfl)
      rw [ordered_some, hnone]
      rfl
  cases op with
  | less | atMost | greater | atLeast => exact hordered _
  | _ => exact absurd hop (by decide)

/-- **The four operators that ask for an order say the same of two values.**

* Less is greater seen from the other side, and at most is at least.
* Of two numbers, strings or truth values just one is so: less, greater, or both at most and at least;
  and at most is the opposite of greater, at least that of less.
* Of all other values, and of a field that is absent, none of the four holds.
* Two numbers or truth values are both at most and at least each other just if they are equal. -/
theorem ordering_coherent (x y : Json) :
    (less.holds (some x) y = greater.holds (some y) x ∧ atMost.holds (some x) y = atLeast.holds (some y) x) ∧
    (x.Comparable y →
      [less.holds (some x) y, greater.holds (some x) y,
        atMost.holds (some x) y && atLeast.holds (some x) y].count true = 1 ∧
      atMost.holds (some x) y = !greater.holds (some x) y ∧
      atLeast.holds (some x) y = !less.holds (some x) y) ∧
    (∀ field : Option Json, (∀ z ∈ field, ¬ z.Comparable y) → ∀ op ∈ ordering, op.holds field y = false) ∧
    ((∃ m n, x = .num m ∧ y = .num n) ∨ (∃ a b, x = .bool a ∧ y = .bool b) →
      ((atMost.holds (some x) y && atLeast.holds (some x) y) = equal.holds (some x) y)) := by
  refine ⟨?_, fun h => ?_, fun field h op hop => holds_of_not_comparable h hop, fun h => ?_⟩
  · simp only [holds, ordered_some, Json.order?_swap x y]
    cases x.order? y with
    | none => exact ⟨rfl, rfl⟩
    | some o => cases o <;> exact ⟨rfl, rfl⟩
  · obtain ⟨o, ho⟩ := Option.isSome_iff_exists.1 ((Json.isSome_order?_iff x y).2 h)
    simp only [holds, ordered_some, ho]
    cases o <;> exact ⟨rfl, rfl, rfl⟩
  · rw [Bool.eq_iff_iff]
    refine Iff.trans ?_ (Json.order?_eq_iff_equates h)
    simp only [holds, ordered_some]
    cases x.order? y with
    | none => simp
    | some o => cases o <;> simp [Ordering.isLE, Ordering.isGE]

/-- Points in time with different offsets, an integer and a binary64 number of one value, a list, and no
field at all. -/
theorem ordering_coherent_mixedKinds :
    ((Json.str "2024-01-15T10:00:00+08:00").Comparable (.str "2024-01-15") ∧
      atMost.holds (some (.str "2024-01-15T10:00:00+08:00")) (.str "2024-01-15") =
        !greater.holds (some (.str "2024-01-15T10:00:00+08:00")) (.str "2024-01-15")) ∧
    ((atMost.holds (some (.int 1)) (.num (.real .one)) && atLeast.holds (some (.int 1)) (.num (.real .one))) =
      equal.holds (some (.int 1)) (.num (.real .one))) ∧
    (¬ (Json.arr []).Comparable (.int 1) ∧ less.holds (some (.arr [])) (.int 1) = false) ∧
    atLeast.holds none (.int 1) = false := by
  have hlist : ¬ (Json.arr []).Comparable (.int 1) := nofun
  obtain ⟨-, hstrings, -, -⟩ := ordering_coherent (.str "2024-01-15T10:00:00+08:00") (.str "2024-01-15")
  obtain ⟨-, -, -, hnumbers⟩ := ordering_coherent (.int 1) (.num (.real .one))
  obtain ⟨-, -, hothers, -⟩ := ordering_coherent (.arr []) (.int 1)
  refine ⟨⟨.strings _ _, (hstrings (.strings _ _)).2.1⟩, hnumbers (.inl ⟨_, _, rfl, rfl⟩),
    ⟨hlist, hothers (some (.arr [])) ?_ less (by decide)⟩, hothers none nofun atLeast (by decide)⟩
  rintro z ⟨⟩
  exact hlist

end Operator

end Sieve
