import Sieve.Proofs.Calendar.Canonical
import Sieve.Proofs.Filter.Comparison

/-!
# Canonical dates in conditions

Operators order strings that name days as these follow each other.  For canonical texts that is the order by code
point, and the timestamp of the midnight that begins a day is of one rank with the day.

* `Date.compare_text`: the order of canonical texts is that of the points in time that they name;
* `Operator.dates_ordered`: what the four operators that ask for an order say of canonical texts.
-/

namespace Sieve

/-! ### The order of canonical texts -/

namespace Date

variable {d e : Date}

theorem text_lt (hd : d.Canonical) (he : e.Canonical) (h : d.Before e) : d.text < e.text := by
  rw [String.lt_iff, text, text, String.toList_ofList, String.toList_ofList]
  exact chars_lt hd he h

/-- Canonical texts come one before another by code point as the dates do. -/
theorem text_lt_iff (hd : d.Canonical) (he : e.Canonical) : d.text < e.text ↔ d.Before e := by
  refine ⟨fun hlt => ?_, text_lt hd he⟩
  rcases before_or d e with h | rfl | h
  · exact h
  · exact absurd hlt (String.lt_irrefl _)
  · exact absurd hlt (String.lt_asymm (text_lt he hd h))

theorem compare_ofDate_of_before (hd : d.Valid) (he : e.Valid) (h : d.Before e) :
    compare (Instant.ofDate d) (Instant.ofDate e) = .lt := by
  have hnumber := dayNumber_lt hd he h
  have hsecond : compare (86400 * d.dayNumber) (86400 * e.dayNumber) = .lt := Int.compare_eq_lt.2 (by omega)
  show (compare (86400 * d.dayNumber) (86400 * e.dayNumber)).then _ = .lt
  rw [hsecond]
  rfl

/-- Canonical texts are ordered by code point as the days in time. -/
theorem compare_text (hd : d.Canonical) (he : e.Canonical) :
    compare d.text e.text = compare (Instant.ofDate d) (Instant.ofDate e) := by
  rcases before_or d e with h | rfl | h
  · rw [(Text.compare_lt_iff _ _).2 (text_lt hd he h), compare_ofDate_of_before hd.1 he.1 h]
  · rw [Std.ReflOrd.compare_self, Std.ReflOrd.compare_self]
  · rw [(Text.compare_gt_iff _ _).2 (text_lt he hd h),
      Std.OrientedCmp.gt_of_lt (compare_ofDate_of_before he.1 hd.1 h)]

/-- The timestamp of the midnight that begins a day. -/
def midnight (d : Date) : String := d.text ++ "T00:00:00Z"

theorem ofChars?_text (h : d.Canonical) : Instant.ofChars? d.text.toList = some (Instant.ofDate d) := by
  rw [text, String.toList_ofList]
  exact Instant.ofChars?_chars h

theorem ofChars?_midnight (h : d.Canonical) : Instant.ofChars? d.midnight.toList = some (Instant.ofDate d) := by
  have hclock : "T00:00:00Z".toList = Instant.midnightClock := by decide +kernel
  rw [midnight, String.toList_append, text, String.toList_ofList, hclock]
  exact Instant.ofChars?_midnight h

end Date

/-! ### What the operators say -/

namespace Operator

open Json

/-- Strings that are ordered by code point are so for the operators. -/
theorem relates_of_order?_compare {s t : String} (h : order? (.str s) (.str t) = some (compare s t)) :
    (less.Relates (.str s) (.str t) ↔ s < t) ∧ (atMost.Relates (.str s) (.str t) ↔ s ≤ t) ∧
    (greater.Relates (.str s) (.str t) ↔ t < s) ∧ (atLeast.Relates (.str s) (.str t) ↔ t ≤ s) := by
  simp only [Relates, holds, ordered_some, h, Option.any_some, Ordering.isLT_iff_eq_lt, Ordering.isLE_iff_ne_gt,
    Ordering.isGT_iff_eq_gt, Ordering.isGE_iff_ne_lt, Text.compare_lt_iff, Text.compare_gt_iff, String.not_lt,
    and_self]

/-- Values of one rank are at most and at least each other, and neither less nor greater. -/
theorem relates_of_order?_eq {x y : Json} (h : order? x y = some .eq) {op : Operator} (hop : op ∈ ordering) :
    op.Relates x y ↔ op ∈ [atMost, atLeast] := by
  cases op with
  | less | atMost | greater | atLeast =>
    simp only [Relates, holds, ordered_some, h, Option.any_some]
    decide
  | _ => exact absurd hop (by decide)

/-- **Canonical dates are ordered as texts and as days alike.**

* Of two of them each of the four operators that ask for an order says what the order by code point says, and that
  is the order of the days.
* A date and the timestamp of its midnight are at most and at least each other, and neither less nor greater. -/
theorem dates_ordered {d e : Date} (hd : d.Canonical) (he : e.Canonical) :
    ((less.Relates (.str d.text) (.str e.text) ↔ d.text < e.text) ∧
      (atMost.Relates (.str d.text) (.str e.text) ↔ d.text ≤ e.text) ∧
      (greater.Relates (.str d.text) (.str e.text) ↔ e.text < d.text) ∧
      (atLeast.Relates (.str d.text) (.str e.text) ↔ e.text ≤ d.text)) ∧
    (d.text < e.text ↔ d.Before e) ∧
    ∀ op ∈ ordering,
      (op.Relates (.str d.text) (.str d.midnight) ↔ op ∈ [atMost, atLeast]) ∧
      (op.Relates (.str d.midnight) (.str d.text) ↔ op ∈ [atMost, atLeast]) := by
  have hday := Date.ofChars?_text hd
  have hmidnight := Date.ofChars?_midnight hd
  have hsame : compare (Instant.ofDate d) (Instant.ofDate d) = .eq := Std.ReflOrd.compare_self
  refine ⟨relates_of_order?_compare ?_, Date.text_lt_iff hd he, fun op hop => ⟨?_, ?_⟩⟩
  · rw [order?_instants hday (Date.ofChars?_text he), Date.compare_text hd he]
  · exact relates_of_order?_eq (by rw [order?_instants hday hmidnight, hsame]) hop
  · exact relates_of_order?_eq (by rw [order?_instants hmidnight hday, hsame]) hop

/-- The last day of a year with a zero in front and the first of the next, and the last day of February in a leap
year. -/
theorem dates_ordered_turns :
    (Date.Canonical ⟨999, 12, 31⟩ ∧ Date.Canonical ⟨1000, 1, 1⟩ ∧
      less.Relates (.str "0999-12-31") (.str "1000-01-01")) ∧
    Date.Canonical ⟨2024, 2, 29⟩ ∧ atLeast.Relates (.str "2024-02-29") (.str "2024-02-29T00:00:00Z") := by
  have hlast : Date.Canonical ⟨999, 12, 31⟩ := by decide
  have hfirst : Date.Canonical ⟨1000, 1, 1⟩ := by decide
  have hleap : Date.Canonical ⟨2024, 2, 29⟩ := by decide
  obtain ⟨⟨hless, -⟩, -⟩ := dates_ordered hlast hfirst
  obtain ⟨-, -, hsame⟩ := dates_ordered hleap hleap
  exact ⟨⟨hlast, hfirst, hless.2 (by decide)⟩, hleap, (hsame atLeast (by decide)).1.2 (by decide)⟩

end Operator

end Sieve
