/-!
# Finite binary64 numbers, exactly

A finite binary64 number is a sign and a count of *steps*, a step being 2⁻¹⁰⁷⁴, the least
positive number of the format.  All arithmetic is done on counts of steps, in `Nat`.

* `OnGrid`: the counts that the format has, those with at most 53 significant bits;
* `roundSteps num den`: the count on the grid nearest to `num / den`, a tie going to the even
  neighbour; `onGrid_roundSteps` says that it is on the grid, `roundSteps_mul` that it is the
  given count if that is on the grid;
* `nearest`: the number nearest to a quotient, `none` beyond the range of the format;
* `signedSteps`: the value as an integer, by which numbers are compared.  The two zeros differ as
  numbers and are equal in value.
-/

namespace Sieve

-- Powers are those of core also where a module imports other ones.
attribute [default_instance high, scoped instance (high)] instPowNat

/-- The counts of steps with at most 53 significant bits. -/
def Binary64.OnGrid (n : Nat) : Prop := n % 2 ^ (n.log2 - 52) = 0

instance (n : Nat) : Decidable (Binary64.OnGrid n) :=
  inferInstanceAs (Decidable (n % 2 ^ (n.log2 - 52) = 0))

/-- The number of steps in the number one. -/
def Binary64.perUnit : Nat := 2 ^ 1074

/-- The number of steps in 2¹⁰²⁴, which is out of range. -/
def Binary64.limit : Nat := 2 ^ 2098

/-- A finite binary64 number: `steps` steps of size 2⁻¹⁰⁷⁴ and a sign, below 2¹⁰²⁴. -/
structure Binary64 where
  negative : Bool
  steps : Nat
  onGrid : Binary64.OnGrid steps
  inRange : steps < Binary64.limit
  deriving DecidableEq

namespace Binary64

theorem perUnit_pos : 0 < perUnit := by decide +kernel

/-- The integer nearest to `num / den`, the even one of two. -/
def roundDiv (num den : Nat) : Nat :=
  match compare (2 * (num % den)) den with
  | .lt => num / den
  | .eq => num / den + num / den % 2
  | .gt => num / den + 1

/-- The count on the grid nearest to `num / den`. -/
def roundSteps (num den : Nat) : Nat :=
  roundDiv num (den * 2 ^ ((num / den).log2 - 52)) * 2 ^ ((num / den).log2 - 52)

theorem roundDiv_bounds (num den : Nat) :
    num / den ≤ roundDiv num den ∧ roundDiv num den ≤ num / den + 1 := by
  unfold roundDiv
  split <;> omega

theorem onGrid_of_lt {n : Nat} (h : n < 2 ^ 53) : OnGrid n := by
  rcases Nat.eq_zero_or_pos n with rfl | h0
  · simp [OnGrid]
  · have : n.log2 < 53 := (Nat.log2_lt (by omega)).2 h
    have hk : n.log2 - 52 = 0 := by omega
    simp [OnGrid, hk, Nat.mod_one]

/-- A number of at most 53 bits, scaled by a power of two. -/
theorem onGrid_mul_pow {m k : Nat} (lo : 2 ^ 52 ≤ m) (hi : m ≤ 2 ^ 53) : OnGrid (m * 2 ^ k) := by
  have hpos : m * 2 ^ k ≠ 0 := Nat.mul_ne_zero (by omega) (Nat.ne_of_gt (Nat.two_pow_pos k))
  unfold OnGrid
  rcases Nat.lt_or_eq_of_le hi with hlt | rfl
  · have hlog : (m * 2 ^ k).log2 < 53 + k := by
      refine (Nat.log2_lt hpos).2 ?_
      rw [Nat.pow_add]
      exact Nat.mul_lt_mul_of_pos_right hlt (Nat.two_pow_pos k)
    have hd : 2 ^ ((m * 2 ^ k).log2 - 52) ∣ m * 2 ^ k :=
      Nat.dvd_trans (Nat.pow_dvd_pow 2 (by omega)) (Nat.dvd_mul_left _ _)
    exact Nat.mod_eq_zero_of_dvd hd
  · rw [← Nat.pow_add, Nat.log2_two_pow]
    exact Nat.mod_eq_zero_of_dvd (Nat.pow_dvd_pow 2 (by omega))

theorem onGrid_roundSteps (num den : Nat) : OnGrid (roundSteps num den) := by
  unfold roundSteps
  generalize hq : num / den = q
  rcases Nat.lt_or_ge q (2 ^ 53) with hlt | hge
  · have hk : q.log2 - 52 = 0 := by
      rcases Nat.eq_zero_or_pos q with rfl | h0
      · simp
      · have := (Nat.log2_lt (n := q) (k := 53) (by omega)).2 hlt
        omega
    rw [hk, Nat.pow_zero, Nat.mul_one, Nat.mul_one]
    have hb := roundDiv_bounds num den
    rcases Nat.lt_or_ge (roundDiv num den) (2 ^ 53) with h | h
    · exact onGrid_of_lt h
    · have : roundDiv num den = 2 ^ 53 * 2 ^ 0 := by omega
      rw [this]
      exact onGrid_mul_pow (by decide) (Nat.le_refl _)
  · have hq0 : q ≠ 0 := by omega
    have hlog : 53 ≤ q.log2 := (Nat.le_log2 hq0).2 hge
    generalize hk : q.log2 - 52 = k
    have hb := roundDiv_bounds num (den * 2 ^ k)
    rw [← Nat.div_div_eq_div_mul, hq] at hb
    have hlow : 2 ^ 52 * 2 ^ k ≤ q := by
      rw [← Nat.pow_add, show 52 + k = q.log2 by omega]
      exact Nat.log2_self_le hq0
    have hhigh : q < 2 ^ 53 * 2 ^ k := by
      rw [← Nat.pow_add, show 53 + k = q.log2 + 1 by omega]
      exact Nat.lt_log2_self
    have h1 : 2 ^ 52 ≤ q / 2 ^ k := (Nat.le_div_iff_mul_le (Nat.two_pow_pos k)).2 hlow
    have h2 : q / 2 ^ k < 2 ^ 53 := (Nat.div_lt_iff_lt_mul (Nat.two_pow_pos k)).2 hhigh
    exact onGrid_mul_pow (by omega) (by omega)

theorem roundSteps_le (num den : Nat) : roundSteps num den ≤ 2 * (num / den) + 1 := by
  unfold roundSteps
  generalize hq : num / den = q
  rcases Nat.eq_zero_or_pos q with rfl | hq0
  · have := roundDiv_bounds num den
    simp at this ⊢
    omega
  · generalize hk : q.log2 - 52 = k
    have hb := (roundDiv_bounds num (den * 2 ^ k)).2
    rw [← Nat.div_div_eq_div_mul, hq] at hb
    have hle : 2 ^ k ≤ q := Nat.le_trans (Nat.pow_le_pow_right (by decide) (by omega))
      (Nat.log2_self_le (by omega))
    calc roundDiv num (den * 2 ^ k) * 2 ^ k ≤ (q / 2 ^ k + 1) * 2 ^ k := Nat.mul_le_mul_right _ hb
      _ = q / 2 ^ k * 2 ^ k + 2 ^ k := by rw [Nat.add_mul, Nat.one_mul]
      _ ≤ q + q := Nat.add_le_add (Nat.div_mul_le_self q (2 ^ k)) hle
      _ ≤ 2 * q + 1 := by omega

theorem roundDiv_mul (m : Nat) {d : Nat} (hd : 0 < d) : roundDiv (m * d) d = m := by
  have hc : compare (2 * (m * d % d)) d = .lt := by
    rw [Nat.mul_mod_left, Nat.compare_eq_lt]
    omega
  simp only [roundDiv, hc]
  exact Nat.mul_div_cancel m hd

/-- A count on the grid is nearest to itself. -/
theorem roundSteps_mul {n d : Nat} (h : OnGrid n) (hd : 0 < d) : roundSteps (n * d) d = n := by
  unfold roundSteps
  rw [Nat.mul_div_cancel n hd]
  obtain ⟨m, hm⟩ := Nat.dvd_of_mod_eq_zero h
  generalize 2 ^ (n.log2 - 52) = u at hm
  subst hm
  rcases Nat.eq_zero_or_pos u with rfl | hu
  · simp
  · rw [show u * m * d = m * (d * u) by ac_rfl, roundDiv_mul m (Nat.mul_pos hd hu), Nat.mul_comm]

/-- The number nearest to `num / den` steps; `none` when that is 2¹⁰²⁴ or more. -/
def nearestSteps (negative : Bool) (num den : Nat) : Option Binary64 :=
  if h : roundSteps num den < limit then
    some ⟨negative, roundSteps num den, onGrid_roundSteps num den, h⟩
  else none

/-- The number nearest to `num / den`; `none` when that is 2¹⁰²⁴ or more. -/
def nearest (negative : Bool) (num den : Nat) : Option Binary64 :=
  nearestSteps negative (num * perUnit) den

/-- The number nearest to an integer of at most 64 bits. -/
def ofInt (i : Int) (h : i.natAbs < 2 ^ 64) : Binary64 where
  negative := i < 0
  steps := roundSteps (i.natAbs * perUnit) 1
  onGrid := onGrid_roundSteps _ _
  inRange := by
    have h1 := roundSteps_le (i.natAbs * perUnit) 1
    have h2 : i.natAbs * perUnit < 2 ^ 64 * perUnit :=
      Nat.mul_lt_mul_of_pos_right h perUnit_pos
    have h3 : 2 * (2 ^ 64 * perUnit) < limit := by decide +kernel
    rw [Nat.div_one] at h1
    omega

/-- Zero, of either sign. -/
def zero (negative : Bool) : Binary64 := ⟨negative, 0, by decide, by decide +kernel⟩

/-- The number one. -/
def one : Binary64 := ofInt 1 (by decide)

/-- The value in steps. -/
def signedSteps (x : Binary64) : Int := if x.negative then -(x.steps : Int) else x.steps

/-- The same magnitude with the other sign. -/
def neg (x : Binary64) : Binary64 := { x with negative := !x.negative }

/-- Equality of values, by which the two zeros are equal. -/
instance : BEq Binary64 := ⟨fun x y => x.signedSteps == y.signedSteps⟩

/-- The order of values. -/
instance : Ord Binary64 := ⟨fun x y => compare x.signedSteps y.signedSteps⟩

/-- The rounded product; `none` beyond the range. -/
def mul (x y : Binary64) : Option Binary64 :=
  nearestSteps (x.negative ^^ y.negative) (x.steps * y.steps) perUnit

/-- The rounded quotient by a number other than zero; `none` beyond the range. -/
def div (x y : Binary64) : Option Binary64 :=
  nearestSteps (x.negative ^^ y.negative) (x.steps * perUnit) y.steps

end Binary64

end Sieve
