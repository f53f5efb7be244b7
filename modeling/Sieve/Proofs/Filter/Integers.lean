import Mathlib.Algebra.Order.Ring.Int
import Sieve.Proofs.Binary64.Rounding
import Sieve.Proofs.Filter.Comparison

/-!
# Integers in conditions

Operators compare integers as binary64 numbers.  Up to 53 significant bits that tells integers apart and
orders them.  Longer integers are confused if they are rounded to the same one.

* `Json.order?_int`, `Json.equates_int`, `Json.isAmong_ints`: order, equality and lists of integers, told by
  `Binary64.roundInt`;
* `Operator.integers_rounded`: what holds of all integers, and what holds of those that are not rounded;
* `Operator.integers_confused`: neighbours that are taken for one integer.
-/

namespace Sieve

open Binary64 (OnGrid Nearest roundInt)

variable {i j : Int} {ks : List Int}

namespace Json

theorem signedSteps_int (h : InWord i) :
    (Number.ofInt i).toBinary64.signedSteps = roundInt i * Binary64.perUnit := by
  have hlength : i.natAbs < 2 ^ 64 := by
    have hlow := h.1
    have hhigh := h.2
    omega
  rw [Number.ofInt, dif_pos h]
  exact Binary64.signedSteps_ofInt i hlength

/-- The order of two integers is that of what they are rounded to. -/
theorem order?_int (hi : InWord i) (hj : InWord j) :
    order? (.int i) (.int j) = some (compare (roundInt i) (roundInt j)) := by
  have hunit : (0 : Int) < Binary64.perUnit := Int.natCast_pos.2 Binary64.perUnit_pos
  have hcompare : order? (.int i) (.int j) =
      some (compare (Number.ofInt i).toBinary64.signedSteps (Number.ofInt j).toBinary64.signedSteps) := rfl
  rw [hcompare, signedSteps_int hi, signedSteps_int hj, ← cmp_eq_compare, cmp_mul_pos_right hunit,
    cmp_eq_compare]

/-- Two integers are equal if they are rounded to the same one. -/
theorem equates_int (hi : InWord i) (hj : InWord j) :
    equates (.int i) (.int j) = true ↔ roundInt i = roundInt j := by
  have hrank : order? (.int i) (.int j) = some .eq ↔ equates (.int i) (.int j) = true :=
    order?_eq_iff_equates (.inl ⟨_, _, rfl, rfl⟩)
  rw [← hrank, order?_int hi hj, Option.some.injEq, Std.LawfulEqOrd.compare_eq_iff_eq]

/-- An integer is among others if one of them is rounded to the same as it is. -/
theorem isAmong_ints (hi : InWord i) (hks : ∀ k ∈ ks, InWord k) :
    isAmong (.int i) (.arr (ks.map .int)) = true ↔ ∃ k ∈ ks, roundInt k = roundInt i := by
  simp only [isAmong, List.any_map, List.any_eq_true, Function.comp_apply]
  refine exists_congr fun k => and_congr_right fun hk => ?_
  rw [equates_int hi (hks k hk), eq_comm]

end Json

namespace Operator

theorem relates_equal_int (hi : InWord i) (hj : InWord j) :
    equal.Relates (.int i) (.int j) ↔ roundInt i = roundInt j := Json.equates_int hi hj

theorem relates_less_int (hi : InWord i) (hj : InWord j) :
    less.Relates (.int i) (.int j) ↔ roundInt i < roundInt j := by
  rw [relates_less_iff, Json.order?_int hi hj, Option.some.injEq, Int.compare_eq_lt]

theorem relates_among_ints (hi : InWord i) (hks : ∀ k ∈ ks, InWord k) :
    among.Relates (.int i) (.arr (ks.map .int)) ↔ ∃ k ∈ ks, roundInt k = roundInt i :=
  Json.isAmong_ints hi hks

/-- **Integers are compared as the nearest integers of at most 53 significant bits.**

* They are equal, or the one is less, just if what they are rounded to is; and an integer is in a list of
  integers just if one of the list is rounded to the same.
* Where no integer has more than 53 significant bits, that is equality, order and membership of the integers
  themselves.
* In any case an integer equals itself and is in a list in which it occurs, and is less than another only if it is. -/
theorem integers_rounded (hi : InWord i) (hj : InWord j) (hks : ∀ k ∈ ks, InWord k) :
    (Nearest (roundInt i) i ∧ Nearest (roundInt j) j ∧
      (equal.Relates (.int i) (.int j) ↔ roundInt i = roundInt j) ∧
      (less.Relates (.int i) (.int j) ↔ roundInt i < roundInt j) ∧
      (among.Relates (.int i) (.arr (ks.map .int)) ↔ ∃ k ∈ ks, roundInt k = roundInt i)) ∧
    (OnGrid i.natAbs →
      (OnGrid j.natAbs →
        (equal.Relates (.int i) (.int j) ↔ i = j) ∧ (less.Relates (.int i) (.int j) ↔ i < j)) ∧
      ((∀ k ∈ ks, OnGrid k.natAbs) → (among.Relates (.int i) (.arr (ks.map .int)) ↔ i ∈ ks))) ∧
    (i = j → equal.Relates (.int i) (.int j)) ∧ (less.Relates (.int i) (.int j) → i < j) ∧
    (i ∈ ks → among.Relates (.int i) (.arr (ks.map .int))) := by
  have hequal := relates_equal_int hi hj
  have hless := relates_less_int hi hj
  have hamong := relates_among_ints hi hks
  refine ⟨⟨Binary64.nearest_roundInt i, Binary64.nearest_roundInt j, hequal, hless, hamong⟩,
    fun hgrid => ⟨fun hgrid' => ?_, fun hgrids => ?_⟩, fun h => ?_, fun h => ?_, fun h => ?_⟩
  · rw [hequal, hless, Binary64.roundInt_of_onGrid hgrid, Binary64.roundInt_of_onGrid hgrid']
    exact ⟨Iff.rfl, Iff.rfl⟩
  · rw [hamong, Binary64.roundInt_of_onGrid hgrid]
    constructor
    · rintro ⟨k, hk, rfl⟩
      rwa [Binary64.roundInt_of_onGrid (hgrids k hk)]
    · exact fun h => ⟨i, h, Binary64.roundInt_of_onGrid hgrid⟩
  · exact hequal.2 (congrArg roundInt h)
  · exact lt_of_not_ge fun hle => (hless.1 h).not_ge (Binary64.roundInt_mono hle)
  · exact hamong.2 ⟨i, h, rfl⟩

/-- Points in time in nanoseconds are rounded to multiples of 256, so those a nanosecond apart are equal;
counts of milliseconds are not rounded. -/
theorem integers_rounded_clocks :
    (roundInt 1705312800000000001 = 1705312800000000000 ∧ roundInt 1705312800000000002 = 1705312800000000000 ∧
      equal.Relates (.int 1705312800000000001) (.int 1705312800000000002)) ∧
    (OnGrid 1705312800001 ∧ OnGrid 1705312800002 ∧ less.Relates (.int 1705312800001) (.int 1705312800002) ∧
      ¬ among.Relates (.int 1705312800001) (.arr ([1705312800002].map .int))) := by
  have hwords : ∀ k ∈ [(1705312800002 : Int)], InWord k := by decide
  have hgrids : ∀ k ∈ [(1705312800002 : Int)], OnGrid k.natAbs := by decide +kernel
  have hi : OnGrid 1705312800001 := by decide +kernel
  have hj : OnGrid 1705312800002 := by decide +kernel
  have hr : roundInt 1705312800000000001 = 1705312800000000000 := by decide +kernel
  have hr' : roundInt 1705312800000000002 = 1705312800000000000 := by decide +kernel
  obtain ⟨⟨-, -, hnanos, -⟩, -⟩ := integers_rounded (i := 1705312800000000001) (j := 1705312800000000002)
    (by decide) (by decide) hwords
  obtain ⟨-, hexact, -⟩ := integers_rounded (i := 1705312800001) (j := 1705312800002)
    (by decide) (by decide) hwords
  obtain ⟨hmillis, hlist⟩ := hexact hi
  exact ⟨⟨hr, hr', hnanos.2 (hr.trans hr'.symm)⟩, hi, hj, (hmillis hj).2.2 (by decide),
    fun h => absurd ((hlist hgrids).1 h) (by decide)⟩

/-- The least integer of more than 53 significant bits is taken for the one before it. -/
theorem integers_confused :
    InWord (2 ^ 53) ∧ InWord (2 ^ 53 + 1) ∧
    equal.Relates (.int (2 ^ 53 + 1)) (.int (2 ^ 53)) ∧ (2 ^ 53 + 1 : Int) ≠ 2 ^ 53 ∧
    ¬ less.Relates (.int (2 ^ 53)) (.int (2 ^ 53 + 1)) ∧ (2 ^ 53 : Int) < 2 ^ 53 + 1 ∧
    among.Relates (.int (2 ^ 53 + 1)) (.arr [.int (2 ^ 53)]) ∧ (2 ^ 53 + 1 : Int) ∉ [2 ^ 53] := by
  decide +kernel

end Operator

end Sieve
