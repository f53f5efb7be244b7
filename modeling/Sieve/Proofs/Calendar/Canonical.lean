import Mathlib.Data.List.Lex
import Sieve.Proofs.Calendar.Days
import Sieve.Proofs.Json.Numeral

/-!
# Canonical dates

A date of a year from 0 to 9999 is written canonically with four digits for the year and two each for month and
day.  Such a text names the day, and of two of them the one of the earlier day comes first by code point.

* `Text.lt_of_digitsValue_lt`: of two rows of as many digits the one of lesser value comes first;
* `Text.padded`: a number with zeros in front;
* `Date.text`: the canonical text of a date, with `Date.chars_lt` for the order of such texts;
* `Instant.ofChars?_chars`, `Instant.ofChars?_midnight`: the text of a date and the timestamp of its midnight name
  one point in time.
-/

namespace Sieve

/-! ### Rows of digits -/

namespace Text

variable {ds es : List Char}

/-- Texts are in the order of their first parts, if these are of one length, and else in that of the rest. -/
theorem append_lt_append {as bs : List Char} (h : as.length = bs.length) (cs ds : List Char) :
    as ++ cs < bs ++ ds ↔ as < bs ∨ as = bs ∧ cs < ds := by
  induction as generalizing bs with
  | nil =>
    obtain rfl := List.eq_nil_of_length_eq_zero h.symm
    simp
  | cons a as ih =>
    cases bs with
    | nil => cases h
    | cons b bs =>
      rw [List.cons_append, List.cons_append, List.cons_lt_cons_iff, List.cons_lt_cons_iff,
        ih (Nat.succ.inj h), List.cons.injEq]
      tauto

theorem digitsValue_cons (c : Char) (cs : List Char) :
    digitsValue (c :: cs) = digitValue c * 10 ^ cs.length + digitsValue cs := by
  have happend := Literal.digitsValue_append [c] cs
  rwa [show digitsValue [c] = digitValue c from Nat.zero_add _] at happend

theorem digitsValue_lt (h : ∀ c ∈ ds, c.isDigit = true) : digitsValue ds < 10 ^ ds.length := by
  induction ds with
  | nil => decide
  | cons c cs ih =>
    obtain ⟨hc, hcs⟩ := List.forall_mem_cons.1 h
    have hdigit : digitValue c ≤ 9 := Nat.sub_le_sub_right (Char.isDigit_iff_toNat.1 hc).2 _
    calc digitsValue (c :: cs)
        = digitValue c * 10 ^ cs.length + digitsValue cs := digitsValue_cons c cs
      _ < digitValue c * 10 ^ cs.length + 10 ^ cs.length := Nat.add_lt_add_left (ih hcs) _
      _ = (digitValue c + 1) * 10 ^ cs.length := (Nat.succ_mul _ _).symm
      _ ≤ 10 * 10 ^ cs.length := Nat.mul_le_mul_right _ (Nat.succ_le_succ hdigit)
      _ = 10 ^ (c :: cs).length := by rw [List.length_cons, Nat.pow_succ, Nat.mul_comm]

/-- Of two rows of as many digits the one of lesser value comes first. -/
theorem lt_of_digitsValue_lt (hds : ∀ c ∈ ds, c.isDigit = true) (hes : ∀ c ∈ es, c.isDigit = true)
    (hlength : ds.length = es.length) (h : digitsValue ds < digitsValue es) : ds < es := by
  induction ds generalizing es with
  | nil =>
    obtain rfl := List.eq_nil_of_length_eq_zero hlength.symm
    exact absurd h (Nat.lt_irrefl _)
  | cons c cs ih =>
    cases es with
    | nil => cases hlength
    | cons d ds =>
      obtain ⟨hc, hcs⟩ := List.forall_mem_cons.1 hds
      obtain ⟨hd, hds⟩ := List.forall_mem_cons.1 hes
      have hrest : cs.length = ds.length := Nat.succ.inj hlength
      rw [digitsValue_cons, digitsValue_cons, hrest] at h
      rw [List.cons_lt_cons_iff]
      have hc0 := (Char.isDigit_iff_toNat.1 hc).1
      have hd0 := (Char.isDigit_iff_toNat.1 hd).1
      have hvalue := digitsValue_lt hds
      rcases Nat.lt_trichotomy c.toNat d.toNat with hlt | heq | hgt
      · exact .inl hlt
      · obtain rfl : c = d := Char.toNat_inj.1 heq
        exact .inr ⟨rfl, ih hcs hds hrest (Nat.lt_of_add_lt_add_left h)⟩
      · -- a greater first digit outweighs all that follow
        have hdigit : digitValue d + 1 ≤ digitValue c := by
          unfold digitValue
          omega
        have hle := Nat.mul_le_mul_right (10 ^ ds.length) hdigit
        rw [Nat.succ_mul] at hle
        omega

/-! ### Numbers with zeros in front -/

/-- The decimal digits of a number, with zeros in front up to a width. -/
def padded (width n : Nat) : List Char := (Nat.toDigits 10 n).leftpad width '0'

theorem isDigit_of_mem_padded {w n : Nat} : ∀ c ∈ padded w n, c.isDigit = true := by
  intro c hc
  rcases List.mem_append.1 hc with hc | hc
  · rw [List.eq_of_mem_replicate hc]
    rfl
  · exact (isDigits_toDigits n).2 c hc

theorem digitsValue_padded (w n : Nat) : digitsValue (padded w n) = n := by
  rw [padded, List.leftpad, Literal.digitsValue_append, Literal.digitsValue_zeros, Literal.digitsValue_toDigits,
    Nat.zero_mul, Nat.zero_add]

variable {w m n : Nat}

theorem length_padded (hw : 0 < w) (h : n < 10 ^ w) : (padded w n).length = w := by
  rw [padded, List.length_leftpad]
  exact Nat.max_eq_left ((Nat.length_toDigits_le_iff (by decide) hw).2 h)

/-- Numbers of one width are in the order of their digits. -/
theorem padded_lt (hw : 0 < w) (hn : n < 10 ^ w) (h : m < n) : padded w m < padded w n := by
  refine lt_of_digitsValue_lt isDigit_of_mem_padded isDigit_of_mem_padded ?_ ?_
  · rw [length_padded hw (Nat.lt_trans h hn), length_padded hw hn]
  · rwa [digitsValue_padded, digitsValue_padded]

end Text

/-! ### Reading padded numbers -/

namespace Instant

open Text

variable {w n : Nat} (rest : List Char)

theorem digits?_append {ds : List Char} (h : ∀ c ∈ ds, c.isDigit = true) :
    digits? ds.length (ds ++ rest) = some (ds, rest) := by
  induction ds with
  | nil => rfl
  | cons c cs ih =>
    obtain ⟨hc, hcs⟩ := List.forall_mem_cons.1 h
    rw [List.length_cons, List.cons_append, digits?, if_pos hc, ih hcs]
    rfl

theorem fixed?_padded (hw : 0 < w) (h : n < 10 ^ w) : fixed? w (padded w n ++ rest) = some (n, rest) := by
  have hdigits := digits?_append rest (isDigit_of_mem_padded (w := w) (n := n))
  rw [length_padded hw h] at hdigits
  simp only [fixed?, hdigits, Option.map_some, digitsValue_padded]

theorem number?_padded (hw : 0 < w) (h : n < 10 ^ w) :
    number? (some w) (padded w n ++ rest) = some (n, rest) := by
  have hlength := length_padded hw h
  have hne : padded w n ≠ [] := by
    rw [← List.length_pos_iff, hlength]
    exact hw
  simp only [number?, List.takeWhile_append_of_pos isDigit_of_mem_padded, List.take_left' hlength,
    if_neg hne, digitsValue_padded, List.drop_left]

theorem exists_digit_padded (hw : 0 < w) (h : n < 10 ^ w) :
    ∃ c cs, padded w n ++ rest = c :: cs ∧ c.isDigit = true := by
  cases hp : padded w n with
  | nil =>
    have hlength := length_padded hw h
    rw [hp] at hlength
    exact absurd hlength (Nat.ne_of_lt hw)
  | cons c cs => exact ⟨c, cs ++ rest, rfl, isDigit_of_mem_padded c (hp ▸ List.mem_cons_self)⟩

theorem isSpace_of_isDigit {c : Char} (h : c.isDigit = true) : isSpace c = false := by
  obtain ⟨hlow, hhigh⟩ := Char.isDigit_iff_toNat.1 h
  have hlow : 48 ≤ c.toNat := hlow
  have hhigh : c.toNat ≤ 57 := hhigh
  simp only [isSpace, Bool.or_eq_false_iff, Bool.and_eq_false_iff, decide_eq_false_iff_not]
  omega

theorem dropWhile_isSpace_padded (hw : 0 < w) (h : n < 10 ^ w) :
    (padded w n ++ rest).dropWhile isSpace = padded w n ++ rest := by
  obtain ⟨c, cs, hcs, hc⟩ := exists_digit_padded rest hw h
  rw [hcs, List.dropWhile_cons_of_neg (by rw [isSpace_of_isDigit hc]; exact Bool.false_ne_true)]

theorem spacedNumber?_padded (hw : 0 < w) (h : n < 10 ^ w) :
    number? (some w) ((padded w n ++ rest).dropWhile isSpace) = some (n, rest) := by
  rw [dropWhile_isSpace_padded rest hw h, number?_padded rest hw h]

theorem spacedYear?_padded (h : n < 10 ^ 4) :
    year? ((padded 4 n ++ rest).dropWhile isSpace) = some ((n : Int), rest) := by
  have hwidth : 0 < 4 := by decide
  obtain ⟨c, cs, hcs, hc⟩ := exists_digit_padded rest hwidth h
  rw [dropWhile_isSpace_padded rest hwidth h]
  unfold year?
  split
  next hsign =>
    cases hcs.symm.trans hsign
    cases hc
  next hsign =>
    cases hcs.symm.trans hsign
    cases hc
  next =>
    rw [number?_padded rest hwidth h]
    rfl

end Instant

/-! ### Canonical texts -/

namespace Date

open Text

/-- A day that exists, in a year from 0 to 9999. -/
def Canonical (d : Date) : Prop := d.Valid ∧ 0 ≤ d.year ∧ d.year ≤ 9999

instance (d : Date) : Decidable d.Canonical := inferInstanceAs (Decidable (_ ∧ _))

/-- Four digits of the year and two each of month and day, with hyphens between them. -/
def chars (d : Date) : List Char :=
  padded 4 d.year.toNat ++ '-' :: (padded 2 d.month ++ '-' :: padded 2 d.day)

/-- The canonical text of a date. -/
def text (d : Date) : String := String.ofList d.chars

variable {d e : Date}

theorem Canonical.year_lt (h : d.Canonical) : d.year.toNat < 10 ^ 4 := by
  have := h.2
  omega

theorem Canonical.month_lt (h : d.Canonical) : d.month < 10 ^ 2 := by
  have := month_le_of_monthLength_pos (Nat.le_trans h.1.2.1 h.1.2.2)
  omega

theorem Canonical.day_lt (h : d.Canonical) : d.day < 10 ^ 2 := by
  have := Nat.le_trans h.1.2.2 (monthLength_le d.year d.month)
  omega

/-- The text of a date that comes before another comes before that of the other. -/
theorem chars_lt (hd : d.Canonical) (he : e.Canonical) (h : d.Before e) : d.chars < e.chars := by
  have hwidth : 0 < 2 := by decide
  have hyears := (length_padded (by decide) hd.year_lt).trans (length_padded (by decide) he.year_lt).symm
  have hmonths := (length_padded hwidth hd.month_lt).trans (length_padded hwidth he.month_lt).symm
  rw [chars, chars, append_lt_append hyears]
  rcases h with hyear | ⟨hyear, hrest⟩
  · have hlt : d.year.toNat < e.year.toNat := by
      have := hd.2.1
      omega
    exact .inl (padded_lt (by decide) he.year_lt hlt)
  · refine .inr ⟨by rw [hyear], List.cons_lt_cons_iff.2 (.inr ⟨rfl, ?_⟩)⟩
    rw [append_lt_append hmonths]
    rcases hrest with hmonth | ⟨hmonth, hday⟩
    · exact .inl (padded_lt hwidth he.month_lt hmonth)
    · exact .inr ⟨by rw [hmonth], List.cons_lt_cons_iff.2 (.inr ⟨rfl, padded_lt hwidth he.day_lt hday⟩)⟩

end Date

namespace Instant

open Text

variable {d : Date}

theorem char?_self (c : Char) (cs : List Char) : char? c (c :: cs) = some cs := if_pos rfl

/-- A canonical text is no timestamp: it ends where a letter should follow. -/
theorem ofTimestamp?_chars (h : d.Canonical) : ofTimestamp? d.chars = none := by
  have hwidth : 0 < 2 := by decide
  have hday := fixed?_padded [] hwidth h.day_lt
  rw [List.append_nil] at hday
  refine Option.eq_none_iff_forall_ne_some.2 fun a ha => ?_
  obtain ⟨_, hyear, ha⟩ := Option.bind_eq_some_iff.1 ha
  cases (fixed?_padded _ (by decide) h.year_lt).symm.trans hyear
  obtain ⟨_, hmark, ha⟩ := Option.bind_eq_some_iff.1 ha
  cases (char?_self _ _).symm.trans hmark
  obtain ⟨_, hmonth, ha⟩ := Option.bind_eq_some_iff.1 ha
  cases (fixed?_padded _ hwidth h.month_lt).symm.trans hmonth
  obtain ⟨_, hmark, ha⟩ := Option.bind_eq_some_iff.1 ha
  cases (char?_self _ _).symm.trans hmark
  obtain ⟨_, hday', ha⟩ := Option.bind_eq_some_iff.1 ha
  cases hday.symm.trans hday'
  obtain ⟨_, hletter, -⟩ := Option.bind_eq_some_iff.1 ha
  cases hletter

theorem ofDateText?_chars (h : d.Canonical) : ofDateText? d.chars = some (ofDate d) := by
  have hwidth : 0 < 2 := by decide
  have hday := spacedNumber?_padded [] hwidth h.day_lt
  rw [List.append_nil] at hday
  refine Option.bind_eq_some_iff.2 ⟨_, spacedYear?_padded _ h.year_lt, ?_⟩
  refine Option.bind_eq_some_iff.2 ⟨_, char?_self _ _, ?_⟩
  refine Option.bind_eq_some_iff.2 ⟨_, spacedNumber?_padded _ hwidth h.month_lt, ?_⟩
  refine Option.bind_eq_some_iff.2 ⟨_, char?_self _ _, ?_⟩
  refine Option.bind_eq_some_iff.2 ⟨_, hday, ?_⟩
  rw [Int.toNat_of_nonneg h.2.1]
  exact if_pos ⟨rfl, h.1⟩

theorem ofChars?_chars (h : d.Canonical) : ofChars? d.chars = some (ofDate d) := by
  rw [ofChars?, ofTimestamp?_chars h, ofDateText?_chars h]
  rfl

/-- The clock of a timestamp at midnight in UTC, `T00:00:00Z`. -/
def midnightClock : List Char := 'T' :: (padded 2 0 ++ ':' :: (padded 2 0 ++ ':' :: (padded 2 0 ++ ['Z'])))

theorem ofTimestamp?_midnight (h : d.Canonical) : ofTimestamp? (d.chars ++ midnightClock) = some (ofDate d) := by
  have hwidth : 0 < 2 := by decide
  have hyear : (d.year.toNat : Int) = d.year := Int.toNat_of_nonneg h.2.1
  have hzero (rest : List Char) : fixed? 2 (padded 2 0 ++ rest) = some (0, rest) :=
    fixed?_padded rest hwidth (by decide)
  rw [Date.chars, List.append_assoc, List.cons_append, List.append_assoc, List.cons_append]
  refine Option.bind_eq_some_iff.2 ⟨_, fixed?_padded _ (by decide) h.year_lt, ?_⟩
  refine Option.bind_eq_some_iff.2 ⟨_, char?_self _ _, ?_⟩
  refine Option.bind_eq_some_iff.2 ⟨_, fixed?_padded _ hwidth h.month_lt, ?_⟩
  refine Option.bind_eq_some_iff.2 ⟨_, char?_self _ _, ?_⟩
  refine Option.bind_eq_some_iff.2 ⟨_, fixed?_padded _ hwidth h.day_lt, ?_⟩
  refine Option.bind_eq_some_iff.2 ⟨_, congrArg (Option.orElse · _) (char?_self 'T' _), ?_⟩
  refine Option.bind_eq_some_iff.2 ⟨_, hzero _, ?_⟩
  refine Option.bind_eq_some_iff.2 ⟨_, char?_self _ _, ?_⟩
  refine Option.bind_eq_some_iff.2 ⟨_, hzero _, ?_⟩
  refine Option.bind_eq_some_iff.2 ⟨_, char?_self _ _, ?_⟩
  refine Option.bind_eq_some_iff.2 ⟨_, hzero _, ?_⟩
  refine Option.bind_eq_some_iff.2 ⟨(0, ['Z']), rfl, ?_⟩
  refine Option.bind_eq_some_iff.2 ⟨(0, []), rfl, ?_⟩
  rw [hyear]
  refine (if_pos ⟨rfl, h.1, by decide⟩).trans ?_
  simp [ofDate]

/-- The timestamp of the midnight that begins a day names the same point in time as the day. -/
theorem ofChars?_midnight (h : d.Canonical) : ofChars? (d.chars ++ midnightClock) = some (ofDate d) := by
  rw [ofChars?, ofTimestamp?_midnight h]
  rfl

end Instant

end Sieve
