import Sieve.Proofs.Binary64.Powers
import Sieve.Settings.Basic

/-!
# Pauses that double

The pauses of a policy made from settings double from one attempt to the next, up to the cap, as long as the
arithmetic in which they are computed allows it.

* `RetryPolicy.delay_ofSettings`: the pause after an attempt is the first pause times a power of two, or the cap
  if that is less;
* `RetryPolicy.delay_undefined`: if the first pause is nothing and the power is beyond the range, their product
  is undefined and the pause is the cap;
* `RetryPolicy.delay_wrapped`: an attempt of 32 bits is taken for a negative exponent, so the pauses begin again
  from nothing;
* `RetryPolicy.waits_attempt`: a run waits once for each failed attempt that is made again, in their order;
* `RetryPolicy.backoff`: the pause after every attempt, and which runs have waits that never decrease.
-/

namespace Sieve

namespace RetryPolicy

open Binary64 (perUnit OnGrid)
open Extended (powerOfTwo)

variable {s : RetrySettings} {a b : Nat}

/-! ### Exponents -/

/-- Attempts of 31 bits are exponents as they stand. -/
theorem exponent_of_lt (ha : a < 2 ^ 31) : exponent a = a := by
  have hword : ∀ m : Nat, m = 4294967296 → (a : Int).bmod m = a := by
    rintro m rfl
    rw [Int.bmod_def]
    split <;> omega
  exact hword (2 ^ 32) (by decide)

/-- Greater attempts are negative exponents. -/
theorem exponent_of_le (hlow : 2 ^ 31 ≤ a) (ha : a < 2 ^ 32) : exponent a = -((2 ^ 32 - a : Nat) : Int) := by
  have hword : ∀ m : Nat, m = 4294967296 → (a : Int).bmod m = -((2 ^ 32 - a : Nat) : Int) := by
    rintro m rfl
    rw [Int.bmod_def]
    split <;> omega
  exact hword (2 ^ 32) (by decide)

theorem number_doubling : Extended.number doubling = powerOfTwo 1 := by
  rw [powerOfTwo, Nat.pow_one]
  exact Extended.number_ofInt 2 (by decide)

theorem power_of_lt (ha : a < 2 ^ 31) : (Extended.number doubling).power (exponent a) = powerOfTwo a := by
  rw [exponent_of_lt ha, Extended.power_two number_doubling (by omega), if_neg (by omega), Int.natAbs_natCast]

theorem power_of_le (hlow : 2 ^ 31 ≤ a) (ha : a < 2 ^ 32) :
    (Extended.number doubling).power (exponent a) = (powerOfTwo (2 ^ 32 - a)).reciprocal := by
  rw [exponent_of_le hlow ha, Extended.power_two number_doubling (by omega), if_pos (by omega), Int.natAbs_neg,
    Int.natAbs_natCast]

/-! ### The pause after an attempt -/

theorem delay_eq (s : RetrySettings) (a : Nat) : (ofSettings s).delay a =
    (((Extended.ofNat s.initial).mul ((Extended.number doubling).power (exponent a))).atMost
      (Extended.ofNat s.cap)).toWord := rfl

/-- A pause of at most 53 bits is a number of the format. -/
theorem onGrid_pause (ha : a < 2 ^ 53) : OnGrid (a * perUnit) ∧ a * perUnit < Binary64.limit :=
  ⟨Binary64.onGrid_mul_perUnit (Binary64.onGrid_of_lt ha),
    (Nat.mul_lt_mul_of_pos_right ha Binary64.perUnit_pos).trans (Binary64.two_pow_mul_perUnit_lt_iff.2 (by decide))⟩

/-- The first pause times a power of two, up to the cap. -/
theorem delay_ofSettings (hi : s.initial < 2 ^ 53) (hc : s.cap < 2 ^ 53) (ha : a < 2 ^ 31)
    (h : 0 < s.initial ∨ a < 1024) : (ofSettings s).delay a = min (s.initial * 2 ^ a) s.cap := by
  obtain ⟨hinitial, hrange⟩ := onGrid_pause hi
  have hpower := Extended.onGrid_powerOfTwo a
  have hgrid : OnGrid (s.initial * 2 ^ a * perUnit) :=
    Binary64.onGrid_mul_perUnit (Binary64.onGrid_mul_two_pow (Binary64.onGrid_of_lt hi) a)
  have hcount : s.initial * perUnit * (2 ^ a * perUnit) = s.initial * 2 ^ a * perUnit * perUnit := by ring
  have hproduct : (Extended.ofNat s.initial).mul (powerOfTwo a) = Extended.ofSteps (s.initial * 2 ^ a * perUnit) := by
    rw [Extended.ofNat_eq, powerOfTwo]
    rcases h with hpos | hlt
    · exact Extended.mul_ofSteps hinitial hpower hgrid (Nat.le_mul_of_pos_left _ hpos)
        (Nat.le_mul_of_pos_left _ (Nat.two_pow_pos a)) hcount
    · exact Extended.mul_ofSteps_of_lt hinitial hpower hgrid hrange (Binary64.two_pow_mul_perUnit_lt_iff.2 hlt) hcount
  rw [delay_eq, power_of_lt ha, hproduct, Extended.toWord_atMost hgrid hc, Nat.mul_div_cancel _ Binary64.perUnit_pos]

/-- Nothing times an infinite power is undefined, which gives way to the cap. -/
theorem delay_undefined (hi : s.initial = 0) (hc : s.cap < 2 ^ 53) (hlow : 1024 ≤ a) (ha : a < 2 ^ 31) :
    (ofSettings s).delay a = s.cap := by
  have hcap := (onGrid_pause hc).1
  obtain ⟨hzero, hrange⟩ := onGrid_pause (a := 0) (by decide)
  have hproduct : (Extended.ofNat s.initial).mul (powerOfTwo a) = .undefined := by
    rw [hi, Extended.ofNat_eq, Extended.ofSteps_of_lt hzero hrange, Extended.powerOfTwo_of_le hlow, Extended.mul,
      if_pos (Nat.zero_mul perUnit)]
  have hword : (Extended.ofSteps (s.cap * perUnit)).toWord = s.cap * perUnit / perUnit :=
    Extended.toWord_ofSteps hcap (by rw [Nat.mul_div_cancel _ Binary64.perUnit_pos]; omega)
  rw [delay_eq, power_of_lt ha, hproduct, Extended.ofNat_eq]
  exact hword.trans (Nat.mul_div_cancel _ Binary64.perUnit_pos)

/-- The first pause divided by a power of two, up to the cap. -/
theorem delay_wrapped (hi : s.initial < 2 ^ 53) (hc : s.cap < 2 ^ 53) (hlow : 2 ^ 31 ≤ a) (ha : a < 2 ^ 32) :
    (ofSettings s).delay a = min (s.initial / 2 ^ (2 ^ 32 - a)) s.cap := by
  obtain ⟨hinitial, hrange⟩ := onGrid_pause hi
  generalize he : 2 ^ 32 - a = e
  suffices ∃ n, OnGrid n ∧ n / perUnit = s.initial / 2 ^ e ∧
      (Extended.ofNat s.initial).mul (powerOfTwo e).reciprocal = .ofSteps n by
    obtain ⟨n, hgrid, hwhole, hproduct⟩ := this
    rw [delay_eq, power_of_le hlow ha, he, hproduct, Extended.toWord_atMost hgrid hc, hwhole]
  rw [Extended.ofNat_eq]
  rcases Nat.lt_or_ge e 1024 with hfinite | hinfinite
  · obtain ⟨d, hunit, hreciprocal⟩ := Extended.reciprocal_of_lt hfinite
    have hgrid := Binary64.onGrid_mul_two_pow (Binary64.onGrid_of_lt hi) d
    have hwhole : s.initial * 2 ^ d / perUnit = s.initial / 2 ^ e := by
      rw [hunit, Nat.mul_comm, Nat.mul_div_mul_left _ _ (Nat.two_pow_pos d)]
    have hless : 2 ^ d ≤ perUnit := hunit ▸ Nat.le_mul_of_pos_right _ (Nat.two_pow_pos e)
    have hunit' := Binary64.two_pow_mul_perUnit_lt_iff.2 (show 0 < 1024 by decide)
    rw [Nat.pow_zero, Nat.one_mul] at hunit'
    refine ⟨s.initial * 2 ^ d, hgrid, hwhole, ?_⟩
    rw [hreciprocal]
    exact Extended.mul_ofSteps_of_lt hinitial (Binary64.onGrid_two_pow d) hgrid hrange (hless.trans_lt hunit')
      (by ring)
  · have hzero := Binary64.onGrid_of_lt (n := 0) (by decide)
    have hless : s.initial < 2 ^ e := hi.trans_le (Nat.pow_le_pow_right (by decide) (by omega))
    refine ⟨0, hzero, by rw [Nat.zero_div, Nat.div_eq_of_lt hless], ?_⟩
    rw [Extended.reciprocal_of_le hinfinite]
    exact Extended.mul_ofSteps_of_lt hinitial hzero hzero hrange (Nat.zero_lt_of_lt hrange)
      (by rw [Nat.mul_zero, Nat.zero_mul])

/-- No pause is longer than the cap. -/
theorem delay_le_cap (hi : s.initial < 2 ^ 53) (hc : s.cap < 2 ^ 53) (ha : a < 2 ^ 32) :
    (ofSettings s).delay a ≤ s.cap := by
  rcases Nat.lt_or_ge a (2 ^ 31) with hlt | hge
  · by_cases h : 0 < s.initial ∨ a < 1024
    · rw [delay_ofSettings hi hc hlt h]
      exact Nat.min_le_right _ _
    · rw [delay_undefined (by omega) hc (by omega) hlt]
  · rw [delay_wrapped hi hc hge ha]
    exact Nat.min_le_right _ _

/-- Among attempts of 31 bits a later one is not followed by a shorter pause. -/
theorem delay_mono (hi : s.initial < 2 ^ 53) (hc : s.cap < 2 ^ 53) (hab : a ≤ b) (hb : b < 2 ^ 31) :
    (ofSettings s).delay a ≤ (ofSettings s).delay b := by
  by_cases h : 0 < s.initial ∨ b < 1024
  · have hgrow : s.initial * 2 ^ a ≤ s.initial * 2 ^ b :=
      Nat.mul_le_mul_left _ (Nat.pow_le_pow_right (by decide) hab)
    rw [delay_ofSettings hi hc (hab.trans_lt hb) (h.imp_right hab.trans_lt), delay_ofSettings hi hc hb h]
    omega
  · rw [delay_undefined (a := b) (by omega) hc (by omega) hb]
    exact delay_le_cap hi hc (by omega)

/-- From attempt 1024 on every pause is the cap, be there a first pause or not. -/
theorem delay_of_le (hi : s.initial < 2 ^ 53) (hc : s.cap < 2 ^ 53) (hlow : 1024 ≤ a) (ha : a < 2 ^ 31) :
    (ofSettings s).delay a = s.cap := by
  rcases Nat.eq_zero_or_pos s.initial with hzero | hpos
  · exact delay_undefined hzero hc hlow ha
  · have hpow : 2 ^ 53 ≤ 2 ^ a := Nat.pow_le_pow_right (by decide) (by omega)
    have hgrow : 2 ^ a ≤ s.initial * 2 ^ a := Nat.le_mul_of_pos_left _ hpos
    rw [delay_ofSettings hi hc ha (.inl hpos)]
    omega

/-- The first attempt of 32 bits is followed by no pause. -/
theorem delay_first_wrapped (hi : s.initial < 2 ^ 53) (hc : s.cap < 2 ^ 53) : (ofSettings s).delay (2 ^ 31) = 0 := by
  obtain ⟨e, he, hlow⟩ : ∃ e : Nat, 2 ^ 32 - 2 ^ 31 = e ∧ 53 ≤ e := ⟨_, rfl, by decide⟩
  have hless : s.initial < 2 ^ e := hi.trans_le (Nat.pow_le_pow_right (by decide) hlow)
  rw [delay_wrapped hi hc (Nat.le_refl _) (by decide), he, Nat.div_eq_of_lt hless, Nat.zero_min]

/-! ### A run -/

section Run

variable {σ ε α : Type}

/-- Writes down a pause. -/
def wait (ms : Nat) : StateM (σ × List Nat) Unit := modify fun (t, waits) => (t, waits ++ [ms])

/-- An operation beside the pauses that are written down. -/
def beside (operation : StateM σ (Except ε α)) : StateM (σ × List Nat) (Except ε α) := fun (t, waits) =>
  ((operation t).1, ((operation t).2, waits))

/-- How many of at most so many attempts fail and may be made again. -/
def failures (mayRetry : ε → Bool) (operation : StateM σ (Except ε α)) : Nat → σ → Nat
  | 0, _ => 0
  | left + 1, t =>
    match operation t with
    | (.ok _, _) => 0
    | (.error e, t) => if mayRetry e then failures mayRetry operation left t + 1 else 0

theorem failures_le (mayRetry : ε → Bool) (operation : StateM σ (Except ε α)) (left : Nat) (t : σ) :
    failures mayRetry operation left t ≤ left := by
  induction left generalizing t with
  | zero => exact Nat.le_refl 0
  | succ left ih =>
    rw [failures]
    split
    next => exact Nat.zero_le _
    next e t' _ =>
      split
      next => exact Nat.succ_le_succ (ih t')
      next => exact Nat.zero_le _

/-- The attempts that are left, after so many, wait once for each of their failures. -/
theorem waits_attemptLeft (p : RetryPolicy) (mayRetry : ε → Bool) (operation : StateM σ (Except ε α))
    {made left : Nat} (hlimit : made + left = p.limit) (t : σ) (past : List Nat) :
    (p.attemptLeft mayRetry wait (beside operation) left (t, past)).2.2 =
      past ++ (List.range' made (failures mayRetry operation left t)).map p.delay := by
  induction left generalizing made t past with
  | zero => simp [attemptLeft, failures, beside]
  | succ left ih =>
    have hmade : p.limit - (left + 1) = made := by omega
    rw [attemptLeft, failures]
    simp only [bind, StateT.bind, beside]
    rcases operation t with ⟨e | a, t'⟩
    · by_cases he : mayRetry e = true
      · simp only [he, if_true, hmade, List.range'_succ, List.map_cons]
        have hrest := ih (show made + 1 + left = p.limit by omega) t' (past ++ [p.delay made])
        rw [List.append_assoc, List.singleton_append] at hrest
        exact hrest
      · simp only [he, Bool.false_eq_true, if_false, List.range'_zero, List.map_nil, List.append_nil]
        rfl
    · exact (List.append_nil past).symm

/-- The pauses of a run, in their order. -/
def waits (p : RetryPolicy) (mayRetry : ε → Bool) (operation : StateM σ (Except ε α)) (t : σ) : List Nat :=
  (p.attempt mayRetry wait (beside operation) (t, [])).2.2

/-- A run waits after the attempts from the first on, once for each failure. -/
theorem waits_attempt (p : RetryPolicy) (mayRetry : ε → Bool) (operation : StateM σ (Except ε α)) (t : σ) :
    p.waits mayRetry operation t = (List.range (failures mayRetry operation p.limit t)).map p.delay := by
  rw [waits, attempt, attemptAfter, Nat.sub_zero,
    waits_attemptLeft p mayRetry operation (Nat.zero_add p.limit), List.nil_append, List.range_eq_range']

/-- Pauses never decrease just as long as no attempt of 32 bits is among them, or if there are none to speak of. -/
theorem pairwise_delay_iff (hi : s.initial < 2 ^ 53) (hc : s.cap < 2 ^ 53) {n : Nat} (hn : n ≤ 2 ^ 32) :
    ((List.range n).map (ofSettings s).delay).Pairwise (· ≤ ·) ↔ n ≤ 2 ^ 31 ∨ s.cap = 0 := by
  rw [List.pairwise_map]
  constructor
  · intro h
    rcases Nat.lt_or_ge (2 ^ 31) n with hlong | hshort
    · have hdrop := List.pairwise_iff_getElem.1 h (2 ^ 31 - 1) (2 ^ 31) (by rw [List.length_range]; omega)
        (by rw [List.length_range]; omega) (by omega)
      rw [List.getElem_range, List.getElem_range, delay_of_le hi hc (by omega) (by omega),
        delay_first_wrapped hi hc] at hdrop
      exact .inr (Nat.le_zero.1 hdrop)
    · exact .inl hshort
  · intro h
    refine List.pairwise_lt_range.imp_of_mem fun {a b} ha hb hab => ?_
    rw [List.mem_range] at ha hb
    rcases h with hshort | hnone
    · exact delay_mono hi hc hab.le (by omega)
    · have hfirst := delay_le_cap hi hc (a := a) (by omega)
      omega

end Run

/-- **The pauses of a policy made from settings of less than 2⁵³ milliseconds.**

* After an attempt below 2³¹ the pause is the first pause times two to the power of the attempt, or the cap if
  that is less.  Only if the first pause is nothing is it the cap from attempt 1024 on.
* After a greater attempt the first pause is divided by a power of two instead, as the attempt is taken for a
  negative number.
* A run waits once for each failure that is not the last attempt, after the attempts 0, 1, 2 and so on, and never
  longer than the cap.  Its waits never decrease just if there are at most 2³¹ of them or the cap is nothing. -/
theorem backoff (hi : s.initial < 2 ^ 53) (hc : s.cap < 2 ^ 53) (hl : s.limit < 2 ^ 32) :
    (∀ a < 2 ^ 31, 0 < s.initial ∨ a < 1024 → (ofSettings s).delay a = min (s.initial * 2 ^ a) s.cap) ∧
    (s.initial = 0 → ∀ a, 1024 ≤ a → a < 2 ^ 31 → (ofSettings s).delay a = s.cap) ∧
    (∀ a, 2 ^ 31 ≤ a → a < 2 ^ 32 → (ofSettings s).delay a = min (s.initial / 2 ^ (2 ^ 32 - a)) s.cap) ∧
    ∀ {σ ε α : Type} (mayRetry : ε → Bool) (operation : StateM σ (Except ε α)) (t : σ),
      (ofSettings s).waits mayRetry operation t =
        (List.range (failures mayRetry operation s.limit t)).map (ofSettings s).delay ∧
      (∀ w ∈ (ofSettings s).waits mayRetry operation t, w ≤ s.cap) ∧
      (((ofSettings s).waits mayRetry operation t).Pairwise (· ≤ ·) ↔
        failures mayRetry operation s.limit t ≤ 2 ^ 31 ∨ s.cap = 0) := by
  refine ⟨fun a ha h => delay_ofSettings hi hc ha h, fun hzero a hlow ha => delay_undefined hzero hc hlow ha,
    fun a hlow ha => delay_wrapped hi hc hlow ha, fun {σ ε α} mayRetry operation t => ?_⟩
  have hwaits : (ofSettings s).waits mayRetry operation t =
      (List.range (failures mayRetry operation s.limit t)).map (ofSettings s).delay :=
    waits_attempt (ofSettings s) mayRetry operation t
  have hfew := failures_le mayRetry operation s.limit t
  refine ⟨hwaits, fun w hw => ?_, ?_⟩
  · rw [hwaits, List.mem_map] at hw
    obtain ⟨a, ha, rfl⟩ := hw
    rw [List.mem_range] at ha
    exact delay_le_cap hi hc (by omega)
  · rw [hwaits]
    exact pairwise_delay_iff hi hc (by omega)

/-- Four tries after pauses from a tenth of a second to a quarter. -/
def briefSettings : RetrySettings := ⟨3, 100, 250⟩

/-- An operation that never succeeds. -/
def failing : StateM Unit (Except String Nat) := fun t => (.error "down", t)

/-- All the pauses of a run of failures, and one after an attempt that is taken for minus one. -/
theorem backoff_briefSettings :
    (ofSettings briefSettings).waits (fun _ => true) failing () = [100, 200, 250] ∧
      [100, 200, 250].Pairwise (· ≤ ·) ∧ (ofSettings briefSettings).delay (2 ^ 32 - 1) = 50 := by
  obtain ⟨hexact, -, hwrapped, hrun⟩ := backoff (s := briefSettings) (by decide) (by decide) (by decide)
  obtain ⟨hwaits, -, hmono⟩ := hrun (fun _ => true) failing ()
  have hpauses : (ofSettings briefSettings).waits (fun _ => true) failing () = [100, 200, 250] := by
    have h0 : (ofSettings briefSettings).delay 0 = 100 := (hexact 0 (by decide) (.inl (by decide))).trans (by decide)
    have h1 : (ofSettings briefSettings).delay 1 = 200 := (hexact 1 (by decide) (.inl (by decide))).trans (by decide)
    have h2 : (ofSettings briefSettings).delay 2 = 250 := (hexact 2 (by decide) (.inl (by decide))).trans (by decide)
    have hfailures : failures (fun _ => true) failing briefSettings.limit () = 3 := rfl
    rw [hwaits, hfailures]
    simp [List.range_succ, h0, h1, h2]
  refine ⟨hpauses, hpauses ▸ hmono.2 (.inl (by decide)), ?_⟩
  rw [hwrapped _ (by decide) (by decide)]
  decide

/-- Where there is no first pause the waits come to be the cap, and where there is one they come to be nothing. -/
theorem delay_ne_formula :
    (ofSettings ⟨2, 0, 5000⟩).delay 1024 = 5000 ∧ min (0 * 2 ^ 1024) 5000 = 0 ∧
      (ofSettings ⟨2, 100, 5000⟩).delay (2 ^ 31) = 0 ∧ min (100 * 2 ^ (2 ^ 31)) 5000 = 5000 := by
  refine ⟨delay_undefined rfl (by decide) (by decide) (by decide), ?_,
    delay_first_wrapped (by decide) (by decide), ?_⟩
  · generalize 2 ^ 1024 = n
    rw [Nat.zero_mul, Nat.zero_min]
  · obtain ⟨e, he, hlow⟩ : ∃ e : Nat, 2 ^ 31 = e ∧ 6 ≤ e := ⟨_, rfl, by decide⟩
    have hpow : 2 ^ 6 ≤ 2 ^ e := Nat.pow_le_pow_right (by decide) hlow
    rw [he]
    omega

end RetryPolicy

end Sieve
