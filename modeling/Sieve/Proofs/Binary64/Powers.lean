import Mathlib.Tactic.Ring
import Sieve.Binary64.Extended
import Sieve.Proofs.Binary64.Rounding

/-!
# Powers of two in binary64 arithmetic

A power of two is a number of the format up to its range and infinite beyond it, so a product with it is not
rounded: it is the exact product, or infinite.

* `Extended.ofSteps`: the value of so many steps, infinite beyond the range; `mul_ofSteps` and
  `mul_ofSteps_of_lt` say that products of such values are those of the counts;
* `Extended.powerOfTwo`, `Extended.power_two`: repeated squaring yields the power of two, for a negative exponent
  its reciprocal, which is zero where the power is infinite;
* `Extended.atMost_ofSteps`, `Extended.toWord_atMost`: the smaller of two values, and its whole part.
-/

namespace Sieve

namespace Binary64

/-- The powers of two in range. -/
theorem two_pow_mul_perUnit_lt_iff {e : Nat} : 2 ^ e * perUnit < limit ↔ e < 1024 := by
  obtain ⟨d, hd, hrange⟩ : ∃ d, d = 1024 ∧ limit = 2 ^ d * perUnit := ⟨1024, rfl, by decide +kernel⟩
  rw [hrange, Nat.mul_lt_mul_right perUnit_pos, Nat.pow_lt_pow_iff_right (by decide), hd]

/-- The steps in the number one can be halved so often. -/
theorem exists_perUnit_eq {e : Nat} (h : e ≤ 1074) : ∃ d : Nat, perUnit = 2 ^ d * 2 ^ e := by
  obtain ⟨d, hd, hunit⟩ : ∃ d, d = 1074 ∧ perUnit = 2 ^ d := ⟨1074, rfl, by decide +kernel⟩
  exact ⟨d - e, by rw [hunit, ← Nat.pow_add, Nat.sub_add_cancel (by omega)]⟩

/-- A count on the grid is on it in smaller steps as well. -/
theorem onGrid_mul_two_pow {n : Nat} (h : OnGrid n) (e : Nat) : OnGrid (n * 2 ^ e) := by
  have hscaled := onGrid_roundSteps (n * 2 ^ e) 1
  rwa [roundSteps_mul_pow, roundSteps_of_onGrid h] at hscaled

theorem onGrid_mul_perUnit {n : Nat} (h : OnGrid n) : OnGrid (n * perUnit) := by
  obtain ⟨d, hd⟩ := exists_perUnit_eq (Nat.zero_le _)
  rw [hd, Nat.pow_zero, Nat.mul_one]
  exact onGrid_mul_two_pow h d

theorem onGrid_two_pow (e : Nat) : OnGrid (2 ^ e) := by
  have h := onGrid_mul_two_pow (onGrid_of_lt (n := 1) (by decide)) e
  rwa [Nat.one_mul] at h

end Binary64

namespace Extended

open Binary64 (OnGrid perUnit limit)

/-! ### Counts of steps -/

/-- The value of so many steps, infinite beyond the range. -/
def ofSteps (n : Nat) : Extended := ofNumber? false (Binary64.nearestSteps false n 1)

theorem ofNat_eq (n : Nat) : ofNat n = ofSteps (n * perUnit) := rfl

section

variable {k m n : Nat}

theorem ofSteps_of_lt (hn : OnGrid n) (h : n < limit) : ofSteps n = number ⟨false, n, hn, h⟩ := by
  have hround := Binary64.roundSteps_of_onGrid hn
  rw [ofSteps, Binary64.nearestSteps, dif_pos (hround.symm ▸ h)]
  simp only [ofNumber?, hround]

theorem ofSteps_of_le (hn : OnGrid n) (h : limit ≤ n) : ofSteps n = infinity false := by
  have hround := Binary64.roundSteps_of_onGrid hn
  rw [ofSteps, Binary64.nearestSteps, dif_neg (hround.symm ▸ Nat.not_lt.2 h)]
  rfl

/-- A quotient that is a count on the grid is not rounded. -/
theorem ofNumber?_nearestSteps (hk : OnGrid k) {den : Nat} (hden : 0 < den) :
    ofNumber? false (Binary64.nearestSteps false (k * den) den) = ofSteps k := by
  have hround := Binary64.roundSteps_mul hk hden
  have hround' := Binary64.roundSteps_of_onGrid hk
  simp only [ofSteps, Binary64.nearestSteps, hround, hround']

/-- A natural number, be it read or built in, is the value of its steps. -/
theorem number_ofInt (n : Nat) (h : (n : Int).natAbs < 2 ^ 64) :
    number (Binary64.ofInt n h) = ofSteps (n * perUnit) := by
  have hrange := (Binary64.ofInt n h).inRange
  have hnegative : ¬ (n : Int) < 0 := by omega
  rw [ofSteps, Binary64.nearestSteps]
  simp only [Binary64.ofInt, Int.natAbs_natCast] at hrange ⊢
  rw [dif_pos hrange, decide_eq_false hnegative]
  rfl

/-- The product of two numbers is that of their counts, if that is on the grid. -/
theorem mul_ofSteps_of_lt (hm : OnGrid m) (hn : OnGrid n) (hk : OnGrid k) (hml : m < limit) (hnl : n < limit)
    (h : m * n = k * perUnit) : (ofSteps m).mul (ofSteps n) = ofSteps k := by
  rw [ofSteps_of_lt hm hml, ofSteps_of_lt hn hnl]
  show ofNumber? false (Binary64.nearestSteps false (m * n) perUnit) = _
  rw [h, ofNumber?_nearestSteps hk Binary64.perUnit_pos]

/-- So it is for values from one on, be they finite or not. -/
theorem mul_ofSteps (hm : OnGrid m) (hn : OnGrid n) (hk : OnGrid k) (hone : perUnit ≤ m) (hone' : perUnit ≤ n)
    (h : m * n = k * perUnit) : (ofSteps m).mul (ofSteps n) = ofSteps k := by
  have hunit := Binary64.perUnit_pos
  have hmk : m ≤ k := by
    refine Nat.le_of_mul_le_mul_right ?_ hunit
    rw [← h]
    exact Nat.mul_le_mul_left m hone'
  have hnk : n ≤ k := by
    refine Nat.le_of_mul_le_mul_right ?_ hunit
    rw [← h, Nat.mul_comm m]
    exact Nat.mul_le_mul_left n hone
  rcases Nat.lt_or_ge m limit with hml | hml <;> rcases Nat.lt_or_ge n limit with hnl | hnl
  · exact mul_ofSteps_of_lt hm hn hk hml hnl h
  · rw [ofSteps_of_lt hm hml, ofSteps_of_le hn hnl, ofSteps_of_le hk (hnl.trans hnk), mul,
      if_neg (by dsimp only; omega)]
    rfl
  · rw [ofSteps_of_le hm hml, ofSteps_of_lt hn hnl, ofSteps_of_le hk (hml.trans hmk), mul,
      if_neg (by dsimp only; omega)]
    rfl
  · rw [ofSteps_of_le hm hml, ofSteps_of_le hn hnl, ofSteps_of_le hk (hml.trans hmk)]
    rfl

/-- The whole part of a number of not more than 64 bits. -/
theorem toWord_ofSteps (hn : OnGrid n) (h : n / perUnit < 2 ^ 64) : (ofSteps n).toWord = n / perUnit := by
  have hlt : n < limit := by
    have hword : n < 2 ^ 64 * perUnit := (Nat.div_lt_iff_lt_mul Binary64.perUnit_pos).1 h
    exact hword.trans (Binary64.two_pow_mul_perUnit_lt_iff.2 (by decide))
  rw [ofSteps_of_lt hn hlt]
  simp only [toWord, Bool.false_eq_true, if_false]
  omega

/-- The smaller of two values is the one of fewer steps, if there are less than infinitely many in one. -/
theorem atMost_ofSteps (hm : OnGrid m) (hn : OnGrid n) (hrange : n < limit) :
    (ofSteps m).atMost (ofSteps n) = ofSteps (min m n) := by
  rw [ofSteps_of_lt hn hrange]
  rcases Nat.lt_or_ge m limit with hlt | hge
  · rw [ofSteps_of_lt hm hlt]
    simp only [atMost, lt, Binary64.signedSteps, Bool.false_eq_true, if_false, decide_eq_true_eq, Int.ofNat_lt]
    split
    next hless => rw [Nat.min_eq_right hless.le, ofSteps_of_lt hn hrange]
    next hless => rw [Nat.min_eq_left (Nat.not_lt.1 hless), ofSteps_of_lt hm hlt]
  · rw [ofSteps_of_le hm hge, Nat.min_eq_right (hrange.le.trans hge), ofSteps_of_lt hn hrange]
    rfl

/-- The whole part of the smaller of a value and a natural number of at most 53 bits. -/
theorem toWord_atMost (hn : OnGrid n) (hm : m < 2 ^ 53) :
    ((ofSteps n).atMost (ofNat m)).toWord = min (n / perUnit) m := by
  have hunit := Binary64.perUnit_pos
  have hgrid := Binary64.onGrid_mul_perUnit (Binary64.onGrid_of_lt hm)
  have hrange : m * perUnit < limit :=
    (Nat.mul_lt_mul_of_pos_right hm hunit).trans (Binary64.two_pow_mul_perUnit_lt_iff.2 (by decide))
  have hwhole : m * perUnit / perUnit = m := Nat.mul_div_cancel m hunit
  rw [ofNat_eq, atMost_ofSteps hn hgrid hrange]
  rcases Nat.le_total n (m * perUnit) with hle | hle
  · have hdiv : n / perUnit ≤ m := hwhole ▸ Nat.div_le_div_right hle
    rw [Nat.min_eq_left hle, toWord_ofSteps hn (by omega), Nat.min_eq_left hdiv]
  · have hdiv : m ≤ n / perUnit := (Nat.le_div_iff_mul_le hunit).2 hle
    rw [Nat.min_eq_right hle, toWord_ofSteps hgrid (by omega), hwhole, Nat.min_eq_right hdiv]

end

/-! ### Powers of two -/

/-- The power of two for a natural exponent. -/
def powerOfTwo (e : Nat) : Extended := ofSteps (2 ^ e * perUnit)

theorem onGrid_powerOfTwo (e : Nat) : OnGrid (2 ^ e * perUnit) :=
  Binary64.onGrid_mul_perUnit (Binary64.onGrid_two_pow e)

theorem powerOfTwo_of_le {e : Nat} (h : 1024 ≤ e) : powerOfTwo e = infinity false := by
  refine ofSteps_of_le (onGrid_powerOfTwo e) (Nat.not_lt.1 fun hlt => ?_)
  exact absurd (Binary64.two_pow_mul_perUnit_lt_iff.1 hlt) (Nat.not_lt.2 h)

theorem mul_powerOfTwo (d e : Nat) : (powerOfTwo d).mul (powerOfTwo e) = powerOfTwo (d + e) := by
  have hone : ∀ e : Nat, perUnit ≤ 2 ^ e * perUnit := fun e => Nat.le_mul_of_pos_left _ (Nat.two_pow_pos e)
  refine mul_ofSteps (onGrid_powerOfTwo d) (onGrid_powerOfTwo e) (onGrid_powerOfTwo (d + e)) (hone d) (hone e) ?_
  rw [Nat.pow_add]
  ring

/-- Repeated squaring, after some digits of the exponent have been used. -/
theorem powerLoop_powerOfTwo (bits r a : Nat) {n : Nat} (hn : n < 2 ^ bits) :
    powerLoop bits (powerOfTwo r) (powerOfTwo a) n = powerOfTwo (r + a * n) := by
  induction bits generalizing r a n with
  | zero =>
    obtain rfl : n = 0 := by simpa using hn
    rfl
  | succ bits ih =>
    have hhalf : n / 2 < 2 ^ bits := by
      rw [Nat.pow_succ] at hn
      omega
    rw [powerLoop, mul_powerOfTwo a a]
    obtain ⟨q, rfl | rfl⟩ : ∃ q, n = 2 * q ∨ n = 2 * q + 1 := ⟨n / 2, by omega⟩
    · rw [if_neg (by omega), ih r (a + a) hhalf, Nat.mul_div_cancel_left q (by decide)]
      congr 1
      ring
    · have hq : (2 * q + 1) / 2 = q := by omega
      rw [if_pos (by omega), mul_powerOfTwo, ih (r + a) (a + a) hhalf, hq]
      congr 1
      ring

/-- The power of two for any exponent of at most 32 bits. -/
theorem power_two {x : Binary64} (hx : number x = powerOfTwo 1) {n : Int} (hn : n.natAbs < 2 ^ 32) :
    (number x).power n = if n < 0 then (powerOfTwo n.natAbs).reciprocal else powerOfTwo n.natAbs := by
  have hone : number .one = powerOfTwo 0 := by
    rw [powerOfTwo, Nat.pow_zero]
    exact number_ofInt 1 (by decide)
  rw [power, hone, hx, powerLoop_powerOfTwo 32 0 1 hn, Nat.zero_add, Nat.one_mul]

/-- The reciprocal of a power of two is exact while the power is finite. -/
theorem reciprocal_of_lt {e : Nat} (h : e < 1024) :
    ∃ d : Nat, perUnit = 2 ^ d * 2 ^ e ∧ (powerOfTwo e).reciprocal = ofSteps (2 ^ d) := by
  obtain ⟨d, hd⟩ := Binary64.exists_perUnit_eq (e := e) (by omega)
  have hsteps : Binary64.one.steps = perUnit := by
    have hone := Binary64.roundSteps_of_onGrid (Binary64.onGrid_of_lt (n := 1) (by decide))
    rw [Binary64.one, Binary64.steps_ofInt, Int.natAbs_one, hone, Nat.one_mul]
  have hnegative : Binary64.one.negative = false := rfl
  have hpos : 0 < 2 ^ e * perUnit := Nat.mul_pos (Nat.two_pow_pos e) Binary64.perUnit_pos
  have hsplit : perUnit * perUnit = 2 ^ d * (2 ^ e * perUnit) := by
    rw [← Nat.mul_assoc, ← hd]
  refine ⟨d, hd, ?_⟩
  rw [powerOfTwo, ofSteps_of_lt (onGrid_powerOfTwo e) (Binary64.two_pow_mul_perUnit_lt_iff.2 h), reciprocal,
    if_neg hpos.ne', Binary64.div, hnegative, hsteps, hsplit, Bool.false_xor,
    ofNumber?_nearestSteps (Binary64.onGrid_two_pow d) hpos]

/-- It is zero where the power is infinite. -/
theorem reciprocal_of_le {e : Nat} (h : 1024 ≤ e) : (powerOfTwo e).reciprocal = ofSteps 0 := by
  have hzero : (0 : Nat) < limit := (Nat.mul_pos (Nat.two_pow_pos 0) Binary64.perUnit_pos).trans
    (Binary64.two_pow_mul_perUnit_lt_iff.2 (by decide))
  rw [powerOfTwo_of_le h, ofSteps_of_lt (Binary64.onGrid_of_lt (by decide)) hzero]
  rfl

end Extended

end Sieve
