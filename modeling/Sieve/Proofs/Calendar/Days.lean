import Sieve.Calendar

/-!
# The numbers of days

The days of the calendar are numbered in their order: a day comes before another by year, month and day of the
month just if its number is less.

* `Date.Before`: the order of dates by year, month and day;
* `Date.yearStart`: the number of the last day before a year, with `Date.yearStart_succ` for the length of a year;
* `Date.dayNumber_lt`: numbers of days that exist follow the order of dates.
-/

namespace Sieve.Date

/-- A date comes before another: in its year, else in its month, else in its day. -/
def Before (d e : Date) : Prop :=
  d.year < e.year ∨ d.year = e.year ∧ (d.month < e.month ∨ d.month = e.month ∧ d.day < e.day)

instance (d e : Date) : Decidable (d.Before e) := inferInstanceAs (Decidable (_ ∨ _))

/-- Of two dates one comes before the other, or they are the same. -/
theorem before_or (d e : Date) : d.Before e ∨ d = e ∨ e.Before d := by
  obtain ⟨y, m, n⟩ := d
  obtain ⟨y', m', n'⟩ := e
  simp only [Before, Date.mk.injEq]
  omega

/-! ### Months -/

/-- Only twelve numbers are months. -/
theorem month_le_of_monthLength_pos {y : Int} {m : Nat} (h : 1 ≤ monthLength y m) : m ≤ 12 := by
  refine Nat.le_of_not_lt fun hm => ?_
  have hnone : monthLength y m = 0 := by
    unfold monthLength
    split <;> omega
  omega

theorem monthLength_le (y : Int) (m : Nat) : monthLength y m ≤ 31 := by
  have hfebruary : (if isLeap y then 29 else 28) ≤ 29 := by split <;> omega
  unfold monthLength
  split <;> omega

theorem daysBefore_le (y : Int) {m n : Nat} (h : m ≤ n) : daysBefore y m ≤ daysBefore y n := by
  induction h with
  | refl => exact Nat.le_refl _
  | @step n _ ih => exact Nat.le_trans ih (Nat.le_add_right (daysBefore y n) (monthLength y n))

/-- The days of a month come before every later month. -/
theorem daysBefore_add_le {d : Date} (hd : d.Valid) {m : Nat} (h : d.month < m) :
    daysBefore d.year d.month + d.day ≤ daysBefore d.year m :=
  calc daysBefore d.year d.month + d.day
      ≤ daysBefore d.year d.month + monthLength d.year d.month := Nat.add_le_add_left hd.2.2 _
    _ = daysBefore d.year (d.month + 1) := rfl
    _ ≤ daysBefore d.year m := daysBefore_le d.year h

/-! ### Years -/

/-- The number of the last day before a year. -/
def yearStart (y : Int) : Int := 365 * (y - 1) + (y - 1) / 4 - (y - 1) / 100 + (y - 1) / 400

theorem dayNumber_eq (d : Date) : d.dayNumber = yearStart d.year + (daysBefore d.year d.month + d.day : Nat) := by
  simp only [dayNumber, yearStart]
  omega

theorem daysBefore_end (y : Int) : daysBefore y 13 = if isLeap y then 366 else 365 := by
  cases h : isLeap y <;> simp [daysBefore, monthLength, h]

/-- A year starts where the months of the one before end. -/
theorem yearStart_succ (y : Int) : yearStart (y + 1) = yearStart y + daysBefore y 13 := by
  rw [daysBefore_end]
  unfold yearStart
  split <;> next h =>
    simp only [isLeap, Bool.and_eq_true, Bool.or_eq_true, decide_eq_true_eq] at h
    omega

theorem yearStart_le {y z : Int} (h : y ≤ z) : yearStart y ≤ yearStart z := by
  unfold yearStart
  omega

/-- The days of a year come before every later year. -/
theorem dayNumber_le {d : Date} (hd : d.Valid) {y : Int} (h : d.year < y) : d.dayNumber ≤ yearStart y := by
  have hmonth : d.month < 13 :=
    Nat.lt_succ_of_le (month_le_of_monthLength_pos (Nat.le_trans hd.2.1 hd.2.2))
  have hdays := daysBefore_add_le hd hmonth
  calc d.dayNumber
      = yearStart d.year + (daysBefore d.year d.month + d.day : Nat) := dayNumber_eq d
    _ ≤ yearStart d.year + daysBefore d.year 13 := by omega
    _ = yearStart (d.year + 1) := (yearStart_succ d.year).symm
    _ ≤ yearStart y := yearStart_le h

/-- A date that comes before another has the lesser number. -/
theorem dayNumber_lt {d e : Date} (hd : d.Valid) (he : e.Valid) (h : d.Before e) : d.dayNumber < e.dayNumber := by
  have hday := he.2.1
  have he' := dayNumber_eq e
  rcases h with hyear | ⟨hyear, hmonth | ⟨hmonth, hday'⟩⟩
  · have hle := dayNumber_le hd hyear
    omega
  · have hle := daysBefore_add_le hd hmonth
    have hd' := dayNumber_eq d
    rw [hyear] at hle hd'
    omega
  · have hd' := dayNumber_eq d
    rw [hyear, hmonth] at hd'
    omega

end Sieve.Date
