import Mathlib.Algebra.Order.Ring.Int
import Sieve.Json.Number

/-!
# Integers as binary64 numbers

A binary64 number is read from an integer by rounding it to 53 significant bits.  Where that lands depends
on the integer alone, not on the size of the steps in which binary64 numbers are counted.

* `Binary64.roundSteps_mono`: a greater count is not rounded to a smaller one;
* `Binary64.nearest_roundSteps`: no count on the grid is nearer than the one that is rounded to;
* `Binary64.roundInt`: the integer that an integer is rounded to; `roundInt_mono`, `nearest_roundInt`,
  `roundInt_of_onGrid` carry these laws over, and `signedSteps_ofInt` says that it is the value of the
  binary64 number.
-/

namespace Sieve.Binary64

/-! ### The nearest multiple -/

/-- A quotient is rounded down, to the even neighbour or up, by what the remainder is of the divisor. -/
theorem roundDiv_cases (n d : Nat) :
    (2 * (n % d) < d ∧ roundDiv n d = n / d) ∨
    (2 * (n % d) = d ∧ roundDiv n d = n / d + n / d % 2) ∨
    (d < 2 * (n % d) ∧ roundDiv n d = n / d + 1) := by
  unfold roundDiv
  cases h : compare (2 * (n % d)) d with
  | lt => exact .inl ⟨Nat.compare_eq_lt.1 h, rfl⟩
  | eq => exact .inr (.inl ⟨Nat.compare_eq_eq.1 h, rfl⟩)
  | gt => exact .inr (.inr ⟨Nat.compare_eq_gt.1 h, rfl⟩)

theorem roundDiv_mono {m n : Nat} (h : m ≤ n) (d : Nat) : roundDiv m d ≤ roundDiv n d := by
  have hm := (roundDiv_bounds m d).2
  have hn := (roundDiv_bounds n d).1
  rcases (Nat.div_le_div_right (c := d) h).lt_or_eq with hlt | heq
  · omega
  · -- of one quotient it is the remainders that count
    have hmod : m % d ≤ n % d := by
      have hm' := Nat.div_add_mod m d
      have hn' := Nat.div_add_mod n d
      rw [heq] at hm'
      omega
    rcases roundDiv_cases m d with ⟨h1, e1⟩ | ⟨h1, e1⟩ | ⟨h1, e1⟩ <;>
      rcases roundDiv_cases n d with ⟨h2, e2⟩ | ⟨h2, e2⟩ | ⟨h2, e2⟩ <;> omega

/-- Rounding does not depend on the unit in which both numbers are counted. -/
theorem roundDiv_mul_right (n d : Nat) {c : Nat} (hc : 0 < c) :
    roundDiv (n * c) (d * c) = roundDiv n d := by
  have hmod : 2 * (n * c % (d * c)) = 2 * (n % d) * c := by rw [Nat.mul_mod_mul_right, Nat.mul_assoc]
  have hdiv : n * c / (d * c) = n / d := Nat.mul_div_mul_right n d hc
  have hlt : 2 * (n % d) * c < d * c ↔ 2 * (n % d) < d := Nat.mul_lt_mul_right hc
  have hgt : d * c < 2 * (n % d) * c ↔ d < 2 * (n % d) := Nat.mul_lt_mul_right hc
  have hscaled := roundDiv_cases (n * c) (d * c)
  rw [hmod, hdiv] at hscaled
  have hunscaled := roundDiv_cases n d
  omega

/-- A multiple is rounded to itself. -/
theorem roundDiv_mul_of_dvd {g d : Nat} (h : d ∣ g) : roundDiv g d * d = g := by
  obtain ⟨q, rfl⟩ := h
  rcases Nat.eq_zero_or_pos d with rfl | hd
  · simp
  · rw [Nat.mul_comm d q, roundDiv_mul q hd]

/-- No multiple is nearer than the one that is rounded to. -/
theorem nearest_roundDiv_mul {d : Nat} (hd : 0 < d) (n q : Nat) :
    (((roundDiv n d * d : Nat) : Int) - n).natAbs ≤ (((q * d : Nat) : Int) - n).natAbs := by
  have hn : d * (n / d) + n % d = n := Nat.div_add_mod n d
  have hmod : n % d < d := Nat.mod_lt n hd
  rw [Nat.mul_comm] at hn
  have hside : q * d ≤ n / d * d ∨ n / d * d + d ≤ q * d := by
    rcases Nat.lt_or_ge (n / d) q with h | h
    · exact .inr (Nat.succ_mul _ d ▸ Nat.mul_le_mul_right d h)
    · exact .inl (Nat.mul_le_mul_right d h)
  have hup : (n / d + 1) * d = n / d * d + d := Nat.succ_mul _ d
  have hparity : n / d % 2 = 0 ∨ n / d % 2 = 1 := by omega
  rcases roundDiv_cases n d with ⟨h, e⟩ | ⟨h, e⟩ | ⟨h, e⟩
  · rw [e]
    omega
  · rcases hparity with hp | hp <;> rw [e, hp]
    · rw [Nat.add_zero]
      omega
    · rw [hup]
      omega
  · rw [e, hup]
    omega

/-! ### The nearest count on the grid -/

/-- The distance of the counts on the grid around a count. -/
def spacing (n : Nat) : Nat := 2 ^ (n.log2 - 52)

theorem spacing_pos (n : Nat) : 0 < spacing n := Nat.two_pow_pos _

theorem onGrid_iff_dvd {n : Nat} : OnGrid n ↔ spacing n ∣ n := (Nat.dvd_iff_mod_eq_zero).symm

theorem roundSteps_one (n : Nat) : roundSteps n 1 = roundDiv n (spacing n) * spacing n := by
  rw [roundSteps, Nat.div_one, Nat.one_mul, spacing]

theorem roundSteps_of_onGrid {n : Nat} (h : OnGrid n) : roundSteps n 1 = n := by
  simpa using roundSteps_mul h Nat.one_pos

theorem log2_le_log2 {m n : Nat} (h : m ≤ n) : m.log2 ≤ n.log2 := by
  rcases Nat.eq_zero_or_pos m with rfl | hm
  · simp
  · exact (Nat.le_log2 (by omega)).2 ((Nat.log2_self_le (by omega)).trans h)

theorem spacing_dvd_pow {n k : Nat} (h : n.log2 ≤ k) : spacing n ∣ 2 ^ k :=
  Nat.pow_dvd_pow 2 (by omega)

/-- Counts on the grid that are at least as long are multiples of the spacing. -/
theorem spacing_dvd_of_onGrid {n g : Nat} (hg : OnGrid g) (h : n.log2 ≤ g.log2) : spacing n ∣ g :=
  Nat.dvd_trans (Nat.pow_dvd_pow 2 (by omega)) (onGrid_iff_dvd.1 hg)

/-- A greater count is not rounded to a smaller one. -/
theorem roundSteps_mono {m n : Nat} (h : m ≤ n) : roundSteps m 1 ≤ roundSteps n 1 := by
  rw [roundSteps_one, roundSteps_one]
  rcases (log2_le_log2 h).lt_or_eq with hlog | hlog
  · -- between counts of different length lies a power of two, which is rounded to itself
    have hn : n ≠ 0 := by
      rintro rfl
      simp at hlog
    have hm : m ≤ 2 ^ n.log2 :=
      (Nat.lt_log2_self.trans_le (Nat.pow_le_pow_right (by decide) hlog)).le
    calc roundDiv m (spacing m) * spacing m
        ≤ roundDiv (2 ^ n.log2) (spacing m) * spacing m := Nat.mul_le_mul_right _ (roundDiv_mono hm _)
      _ = 2 ^ n.log2 := roundDiv_mul_of_dvd (spacing_dvd_pow hlog.le)
      _ = roundDiv (2 ^ n.log2) (spacing n) * spacing n :=
          (roundDiv_mul_of_dvd (spacing_dvd_pow le_rfl)).symm
      _ ≤ roundDiv n (spacing n) * spacing n :=
          Nat.mul_le_mul_right _ (roundDiv_mono (Nat.log2_self_le hn) _)
  · rw [spacing, hlog, ← spacing]
    exact Nat.mul_le_mul_right _ (roundDiv_mono h _)

/-- No count on the grid is nearer than the one that is rounded to. -/
theorem nearest_roundSteps {g : Nat} (hg : OnGrid g) (n : Nat) :
    ((roundSteps n 1 : Int) - n).natAbs ≤ ((g : Int) - n).natAbs := by
  rw [roundSteps_one]
  rcases Nat.lt_or_ge g.log2 n.log2 with hlog | hlog
  · -- a shorter count is farther than the power of two above it
    have hn : n ≠ 0 := by
      rintro rfl
      simp at hlog
    have hpow : 2 ^ n.log2 ≤ n := Nat.log2_self_le hn
    have hlt : g < 2 ^ n.log2 := Nat.lt_log2_self.trans_le (Nat.pow_le_pow_right (by decide) hlog)
    obtain ⟨q, hq⟩ := spacing_dvd_pow (le_refl n.log2)
    have hnearest := nearest_roundDiv_mul (spacing_pos n) n q
    rw [Nat.mul_comm q, ← hq] at hnearest
    omega
  · obtain ⟨q, rfl⟩ := spacing_dvd_of_onGrid hg hlog
    rw [Nat.mul_comm _ q]
    exact nearest_roundDiv_mul (spacing_pos n) n q

theorem log2_mul_pow {n : Nat} (hn : n ≠ 0) (e : Nat) : (n * 2 ^ e).log2 = n.log2 + e := by
  have hpos : 0 < 2 ^ e := Nat.two_pow_pos e
  refine (Nat.log2_eq_iff (Nat.mul_ne_zero hn hpos.ne')).2 ⟨?_, ?_⟩
  · rw [Nat.pow_add]
    exact Nat.mul_le_mul_right _ (Nat.log2_self_le hn)
  · rw [Nat.add_right_comm, Nat.pow_add]
    exact Nat.mul_lt_mul_of_pos_right Nat.lt_log2_self hpos

/-- A count in smaller steps is rounded as it is in greater ones. -/
theorem roundSteps_mul_pow (n e : Nat) : roundSteps (n * 2 ^ e) 1 = roundSteps n 1 * 2 ^ e := by
  rcases Nat.eq_zero_or_pos n with rfl | hn
  · simp [roundSteps_of_onGrid (n := 0) rfl]
  · have hlog := log2_mul_pow hn.ne' e
    rcases Nat.lt_or_ge n.log2 52 with hshort | hlong
    · -- neither count has digits to lose
      have hgrid : OnGrid n :=
        onGrid_of_lt (Nat.lt_log2_self.trans_le (Nat.pow_le_pow_right (by decide) (by omega)))
      have hscaled : OnGrid (n * 2 ^ e) := by
        rw [onGrid_iff_dvd, spacing, hlog]
        exact Nat.dvd_trans (Nat.pow_dvd_pow 2 (by omega)) (Nat.dvd_mul_left _ _)
      rw [roundSteps_of_onGrid hgrid, roundSteps_of_onGrid hscaled]
    · have hspacing : spacing (n * 2 ^ e) = spacing n * 2 ^ e := by
        rw [spacing, hlog, spacing, ← Nat.pow_add, show n.log2 + e - 52 = n.log2 - 52 + e by omega]
      rw [roundSteps_one, roundSteps_one, hspacing, roundDiv_mul_right _ _ (Nat.two_pow_pos e),
        Nat.mul_assoc]

/-! ### Integers -/

/-- The integer of at most 53 significant bits that an integer is rounded to. -/
def roundInt (i : Int) : Int := i.sign * roundSteps i.natAbs 1

@[simp] theorem roundInt_natCast (n : Nat) : roundInt n = roundSteps n 1 := by
  cases n with
  | zero => rfl
  | succ n =>
    have hsign : ((n + 1 : Nat) : Int).sign = 1 := rfl
    rw [roundInt, hsign, Int.one_mul, Int.natAbs_natCast]

@[simp] theorem roundInt_neg (i : Int) : roundInt (-i) = -roundInt i := by
  rw [roundInt, roundInt, Int.sign_neg, Int.natAbs_neg, Int.neg_mul]

theorem natAbs_roundInt (i : Int) : (roundInt i).natAbs = roundSteps i.natAbs 1 := by
  rcases Int.natAbs_eq i with h | h <;> generalize i.natAbs = n at h <;> subst h
  · rw [roundInt_natCast, Int.natAbs_natCast]
  · rw [roundInt_neg, roundInt_natCast, Int.natAbs_neg, Int.natAbs_natCast]

theorem roundInt_of_onGrid {i : Int} (h : OnGrid i.natAbs) : roundInt i = i := by
  rw [roundInt, roundSteps_of_onGrid h, Int.sign_mul_natAbs]

/-- A greater integer is not rounded to a smaller one. -/
theorem roundInt_mono {i j : Int} (h : i ≤ j) : roundInt i ≤ roundInt j := by
  rcases Int.natAbs_eq i with hi | hi <;> rcases Int.natAbs_eq j with hj | hj <;>
    generalize i.natAbs = m at hi <;> generalize j.natAbs = n at hj <;> subst hi hj
  · simpa using roundSteps_mono (by omega : m ≤ n)
  · obtain ⟨rfl, rfl⟩ : m = 0 ∧ n = 0 := by omega
    rfl
  · have hm := roundInt_natCast m
    have hn := roundInt_natCast n
    rw [roundInt_neg]
    omega
  · simpa using roundSteps_mono (by omega : n ≤ m)

/-- An integer of at most 53 significant bits than which none is nearer to an integer. -/
def Nearest (r i : Int) : Prop :=
  OnGrid r.natAbs ∧ ∀ g : Int, OnGrid g.natAbs → (r - i).natAbs ≤ (g - i).natAbs

theorem nearest_roundInt (i : Int) : Nearest (roundInt i) i := by
  refine ⟨natAbs_roundInt i ▸ onGrid_roundSteps _ _, fun g hg => ?_⟩
  have h := nearest_roundSteps hg i.natAbs
  rcases Int.natAbs_eq i with hi | hi <;> generalize i.natAbs = n at hi h <;> subst hi
  · rw [roundInt_natCast]
    omega
  · rw [roundInt_neg, roundInt_natCast]
    omega

theorem steps_ofInt (i : Int) (h : i.natAbs < 2 ^ 64) :
    (ofInt i h).steps = roundSteps i.natAbs 1 * perUnit := by
  obtain ⟨e, he⟩ : ∃ e, perUnit = 2 ^ e := ⟨1074, by rw [perUnit]⟩
  show roundSteps (i.natAbs * perUnit) 1 = _
  rw [he, roundSteps_mul_pow]

/-- The value of an integer as a binary64 number is that of the integer that it is rounded to. -/
theorem signedSteps_ofInt (i : Int) (h : i.natAbs < 2 ^ 64) :
    (ofInt i h).signedSteps = roundInt i * perUnit := by
  have hnegative : (ofInt i h).negative = decide (i < 0) := rfl
  rw [signedSteps, steps_ofInt, hnegative, Int.natCast_mul]
  by_cases hi : i < 0
  · rw [roundInt, Int.sign_eq_neg_one_of_neg hi, decide_eq_true hi, if_pos rfl, Int.neg_one_mul, Int.neg_mul]
  · obtain ⟨n, rfl⟩ := Int.eq_ofNat_of_zero_le (Int.not_lt.1 hi)
    rw [roundInt_natCast, decide_eq_false hi, if_neg Bool.false_ne_true, Int.natAbs_natCast]

end Sieve.Binary64
