import Mathlib.Data.List.TakeDrop
import Sieve.Json.Source

/-!
# Numbers as literals

The text of a number is a literal of the grammar, and the literal tells the number.

* `Literal.chars`: a literal as it is written; `Source.scanNumber_chars` says that a scanner gets a
  well-formed literal back from it, whatever follows that cannot go on with the number;
* `Number.literal`: the literal that a number is written as (`Number.text_eq_chars`);
* `Literal.decimal`: the exact value of a literal.  `Decimal.steps_decimal_ofDigits` says that laying
  digits out does not change what they read as;
* `Number.text_append_inj`: different numbers have different texts, whatever follows.
-/

namespace Sieve

/-- A row of digits, at least one. -/
def IsDigits (ds : List Char) : Prop := ds ≠ [] ∧ ∀ c ∈ ds, c.isDigit = true

/-- A text that cannot go on with a number. -/
def Delimited : List Char → Prop
  | [] => True
  | c :: _ => c.isDigit = false ∧ c ≠ '.' ∧ c ≠ 'e' ∧ c ≠ 'E'

theorem Delimited.head {rest : List Char} (h : Delimited rest) :
    ∀ c ∈ rest.head?, c.isDigit = false := by
  cases rest with
  | nil => simp
  | cons c cs =>
    intro c' hc
    cases hc
    exact h.1

namespace Literal

/-- The digits after the point, as they are written. -/
def fractionChars : Option (List Char) → List Char
  | none => []
  | some ds => '.' :: ds

/-- The exponent, as it is written. -/
def exponentChars : Option (Bool × List Char) → List Char
  | none => []
  | some (down, ds) => 'e' :: (if down then '-' else '+') :: ds

/-- A literal as it is written. -/
def chars (l : Literal) : List Char :=
  (if l.negative then ['-'] else []) ++ l.whole ++ fractionChars l.fraction ++
    exponentChars l.exponent

/-- The literals of the grammar. -/
structure WellFormed (l : Literal) : Prop where
  whole : IsDigits l.whole
  noLeadingZero : ∀ ds, l.whole = '0' :: ds → ds = []
  fraction : ∀ ds ∈ l.fraction, IsDigits ds
  exponent : ∀ e ∈ l.exponent, IsDigits e.2

end Literal

/-! ### Scanning -/

namespace Source

/-- A row of digits ends where no digit follows. -/
theorem span_digits {ds rest : List Char} (hd : ∀ c ∈ ds, c.isDigit = true)
    (hr : ∀ c ∈ rest.head?, c.isDigit = false) : (ds ++ rest).span Char.isDigit = (ds, rest) := by
  rw [List.span_eq_takeWhile_dropWhile, List.takeWhile_append_of_pos hd,
    List.dropWhile_append_of_pos hd]
  cases rest with
  | nil => simp
  | cons c cs =>
    have hc : c.isDigit = false := hr c rfl
    simp [hc]

theorem scanWhole_append {l : Literal} (hl : l.WellFormed) {rest : List Char}
    (hr : ∀ c ∈ rest.head?, c.isDigit = false) :
    scanWhole (l.whole ++ rest) = .ok (l.whole, rest) := by
  have hspan := span_digits hl.whole.2 hr
  cases hw : l.whole with
  | nil => exact absurd hw hl.whole.1
  | cons c ds =>
    rw [hw] at hspan
    by_cases hc : c = '0'
    · -- a zero in front is the only digit, so the scanner goes no further
      subst hc
      rw [hl.noLeadingZero ds hw]
      cases rest with
      | nil => rfl
      | cons d rest =>
        have hd : d.isDigit = false := hr d rfl
        simp [scanWhole, hd]
    · unfold scanWhole
      split
      next heq => simp_all
      next => rw [hspan]

theorem scanFraction_append {f : Option (List Char)} (hf : ∀ ds ∈ f, IsDigits ds) {rest : List Char}
    (hr : ∀ c ∈ rest.head?, c.isDigit = false ∧ c ≠ '.') :
    scanFraction (Literal.fractionChars f ++ rest) = .ok (f, rest) := by
  cases f with
  | none =>
    cases rest with
    | nil => rfl
    | cons c cs =>
      have hc := (hr c rfl).2
      unfold scanFraction
      split
      next heq => simp_all [Literal.fractionChars]
      next => rfl
  | some ds =>
    have hd := hf ds rfl
    have hspan := span_digits hd.2 fun c hc => (hr c hc).1
    simp only [Literal.fractionChars, scanFraction, List.cons_append, hspan]
    cases ds with
    | nil => exact absurd rfl hd.1
    | cons d ds => rfl

theorem scanExponent_append {e : Option (Bool × List Char)} (he : ∀ p ∈ e, IsDigits p.2)
    {rest : List Char} (hr : Delimited rest) :
    scanExponent (Literal.exponentChars e ++ rest) = .ok (e, rest) := by
  cases e with
  | none =>
    cases rest with
    | nil => rfl
    | cons c cs =>
      obtain ⟨-, -, hc, hc'⟩ := hr
      unfold scanExponent
      split
      next heq => simp_all [Literal.exponentChars]
      next heq => simp_all [Literal.exponentChars]
      next => rfl
  | some p =>
    obtain ⟨down, ds⟩ := p
    have hd : IsDigits ds := he _ rfl
    have hspan := span_digits hd.2 hr.head
    cases down <;> simp only [Literal.exponentChars, scanExponent, scanExponent.digits, hspan,
      List.cons_append, if_true, Bool.false_eq_true, if_false] <;>
    · cases ds with
      | nil => exact absurd rfl hd.1
      | cons d ds => rfl

/-- What follows the digits before the point. -/
theorem head_fraction {f : Option (List Char)} {e : Option (Bool × List Char)} {rest : List Char}
    (hr : Delimited rest) :
    ∀ c ∈ (Literal.fractionChars f ++ (Literal.exponentChars e ++ rest)).head?,
      c.isDigit = false := by
  intro c hc
  cases f with
  | some ds => cases hc; rfl
  | none =>
    cases e with
    | some p => cases hc; rfl
    | none => exact hr.head c hc

/-- What follows the digits after the point. -/
theorem head_exponent {e : Option (Bool × List Char)} {rest : List Char} (hr : Delimited rest) :
    ∀ c ∈ (Literal.exponentChars e ++ rest).head?, c.isDigit = false ∧ c ≠ '.' := by
  intro c hc
  cases e with
  | some p => cases hc; exact ⟨rfl, by decide⟩
  | none =>
    cases rest with
    | nil => cases hc
    | cons d rest => cases hc; exact ⟨hr.1, hr.2.1⟩

/-- A scanner gets a literal back from its text. -/
theorem scanNumber_chars {l : Literal} (hl : l.WellFormed) {rest : List Char}
    (hr : Delimited rest) : scanNumber (l.chars ++ rest) = .ok (l, rest) := by
  have hw := scanWhole_append hl (head_fraction (f := l.fraction) (e := l.exponent) hr)
  have hf := scanFraction_append hl.fraction (head_exponent (e := l.exponent) hr)
  have he := scanExponent_append hl.exponent hr
  obtain ⟨negative, whole, fraction, exponent⟩ := l
  have hdigits := hl.whole
  simp only at hw hf he hdigits
  cases negative with
  | true =>
    simp only [scanNumber, Literal.chars, if_true, List.append_assoc, List.cons_append,
      List.nil_append, hw, hf, he, bind, Except.bind, pure, Except.pure]
  | false =>
    cases whole with
    | nil => exact absurd rfl hdigits.1
    | cons c ds =>
      have hc : c ≠ '-' := by
        rintro rfl
        exact absurd (hdigits.2 '-' List.mem_cons_self) (by decide)
      simp only [List.cons_append] at hw
      simp [scanNumber, Literal.chars, hc, hw, hf, he, bind, Except.bind, pure, Except.pure]

end Source

/-! ### The literal of a number -/

theorem isDigits_zero : IsDigits ['0'] := by
  refine ⟨List.cons_ne_nil _ _, fun c hc => ?_⟩
  rw [List.mem_singleton.1 hc]
  rfl

namespace IsDigits

variable {ds : List Char}

theorem append_zeros (h : IsDigits ds) (n : Nat) : IsDigits (ds ++ List.replicate n '0') := by
  refine ⟨by simp [h.1], fun c hc => ?_⟩
  rcases List.mem_append.1 hc with hc | hc
  · exact h.2 c hc
  · rw [(List.mem_replicate.1 hc).2]
    rfl

theorem zeros_append (h : IsDigits ds) (n : Nat) : IsDigits (List.replicate n '0' ++ ds) := by
  refine ⟨by simp [h.1], fun c hc => ?_⟩
  rcases List.mem_append.1 hc with hc | hc
  · rw [(List.mem_replicate.1 hc).2]
    rfl
  · exact h.2 c hc

theorem take (h : IsDigits ds) {n : Nat} (hn : 0 < n) : IsDigits (ds.take n) := by
  refine ⟨fun h0 => ?_, fun c hc => h.2 c (List.mem_of_mem_take hc)⟩
  rcases List.take_eq_nil_iff.1 h0 with h0 | h0
  · omega
  · exact h.1 h0

theorem drop (h : IsDigits ds) {n : Nat} (hn : n < ds.length) : IsDigits (ds.drop n) := by
  refine ⟨fun h0 => ?_, fun c hc => h.2 c (List.mem_of_mem_drop hc)⟩
  have := List.drop_eq_nil_iff.1 h0
  omega

end IsDigits

theorem isDigits_toDigits (n : Nat) : IsDigits (Nat.toDigits 10 n) :=
  ⟨Nat.toDigits_ne_nil, fun _ hc => Nat.isDigit_of_mem_toDigits (by decide) (by decide) hc⟩

/-- The digits of a number other than zero start with none. -/
theorem head_toDigits_ne_zero {n : Nat} (hn : n ≠ 0) : (Nat.toDigits 10 n).head? ≠ some '0' := by
  induction n using Nat.strongRecOn with
  | ind n ih =>
    rcases Nat.lt_or_ge n 10 with h | h
    · simpa [Nat.toDigits_of_lt_base h] using hn
    · have hne : Nat.toDigits 10 (n / 10) ≠ [] := Nat.toDigits_ne_nil
      rw [Nat.toDigits_of_base_le (by decide) h, List.head?_append]
      cases hd : Nat.toDigits 10 (n / 10) with
      | nil => exact absurd hd hne
      | cons c cs => simpa [hd] using ih (n / 10) (by omega) (by omega)

namespace Literal

/-- The literal of `10 ^ e` times the number with the given digits, laid out as JSON text. -/
def ofDigits (negative : Bool) (ds : List Char) (e : Int) : Literal :=
  let k : Int := ds.length - 1 + e
  if Decimal.Layout.json.positional k then
    if 0 ≤ e then ⟨negative, ds ++ List.replicate e.toNat '0', some ['0'], none⟩
    else if 0 ≤ k then ⟨negative, ds.take (k.toNat + 1), some (ds.drop (k.toNat + 1)), none⟩
    else ⟨negative, ['0'], some (List.replicate (-k - 1).toNat '0' ++ ds), none⟩
  else
    ⟨negative, ds.take 1, if ds.length = 1 then none else some (ds.drop 1),
      some (decide (k < 0), Nat.toDigits 10 k.natAbs)⟩

theorem chars_ofDigits (negative : Bool) (ds : List Char) (e : Int) :
    (ofDigits negative ds e).chars =
      (if negative then ['-'] else []) ++ Decimal.layOut .json ds e := by
  unfold ofDigits Decimal.layOut
  dsimp only
  split
  next =>
    split
    next => simp [chars, fractionChars, exponentChars, Decimal.Layout.json]
    next => split <;> simp [chars, fractionChars, exponentChars]
  next =>
    have hsign : ∀ k : Int,
        (if decide (k < 0) = true then '-' else '+') = if 0 ≤ k then '+' else '-' := by
      intro k
      by_cases hk : 0 ≤ k
      · have hk' : ¬ k < 0 := by omega
        simp [hk, hk']
      · have hk' : k < 0 := by omega
        simp [hk, hk']
    simp only [chars, exponentChars, hsign]
    by_cases hl : ds.length = 1 <;> simp [fractionChars, hl]

/-- Digits that do not start with zero, or are a single zero, laid out. -/
theorem wellFormed_ofDigits (negative : Bool) {ds : List Char} (hd : IsDigits ds) {e : Int}
    (h0 : ds.head? ≠ some '0' ∨ ds = ['0'] ∧ e = 0) : (ofDigits negative ds e).WellFormed := by
  have hlen : 0 < ds.length := List.length_pos_iff.2 hd.1
  unfold ofDigits
  dsimp only
  split
  next =>
    split
    next he =>
      refine ⟨hd.append_zeros _, fun xs hxs => ?_, ?_, nofun⟩
      · rcases h0 with h0 | ⟨rfl, rfl⟩
        · cases ds with
          | nil => exact absurd rfl hd.1
          | cons d ds => exact absurd (by simpa using congrArg List.head? hxs) h0
        · simpa using hxs.symm
      · rintro xs ⟨⟩
        exact isDigits_zero
    next he =>
      split
      next hk =>
        refine ⟨hd.take (Nat.succ_pos _), fun xs hxs => ?_, ?_, nofun⟩
        · rcases h0 with h0 | ⟨rfl, rfl⟩
          · cases ds with
            | nil => exact absurd rfl hd.1
            | cons d ds => exact absurd (by simpa using congrArg List.head? hxs) h0
          · exact absurd (Int.le_refl 0) he
        · rintro xs ⟨⟩
          exact hd.drop (by omega)
      next hk =>
        refine ⟨isDigits_zero, fun xs hxs => by simpa using hxs.symm, ?_, nofun⟩
        rintro xs ⟨⟩
        exact hd.zeros_append _
  next =>
    refine ⟨hd.take Nat.one_pos, fun xs hxs => ?_, fun xs hxs => ?_, ?_⟩
    · have hle := congrArg List.length hxs
      simp only [List.length_take, List.length_cons] at hle
      exact List.length_eq_zero_iff.1 (by omega)
    · split at hxs
      next => cases hxs
      next h1 =>
        cases hxs
        exact hd.drop (by omega)
    · rintro p ⟨⟩
      exact isDigits_toDigits _

/-- The exact value of a literal but for its sign. -/
def decimal (l : Literal) : Decimal where
  digits := digitsValue (l.whole ++ l.fraction.getD [])
  exponent :=
    (match l.exponent with
      | none => 0
      | some (down, ds) => if down then -(digitsValue ds : Int) else digitsValue ds) -
    (l.fraction.getD []).length

theorem digitsValue_append (ds es : List Char) :
    digitsValue (ds ++ es) = digitsValue ds * 10 ^ es.length + digitsValue es := by
  show Nat.ofDigitChars 10 (ds ++ es) 0 = Nat.ofDigitChars 10 ds 0 * _ + Nat.ofDigitChars 10 es 0
  rw [Nat.ofDigitChars_append, Nat.ofDigitChars_eq_ofDigitChars_zero, Nat.mul_comm]

theorem digitsValue_zeros (n : Nat) : digitsValue (List.replicate n '0') = 0 := by
  show Nat.ofDigitChars 10 _ 0 = 0
  simp

theorem digitsValue_toDigits (n : Nat) : digitsValue (Nat.toDigits 10 n) = n :=
  Nat.ofDigitChars_ten_toDigits

end Literal

/-- A quotient may be reduced before it is rounded. -/
theorem Binary64.roundSteps_mul_mul (num den : Nat) {k : Nat} (hk : 0 < k) :
    roundSteps (num * k) (den * k) = roundSteps num den := by
  have hdiv : ∀ d, num * k / (d * k) = num / d := fun d => Nat.mul_div_mul_right num d hk
  have hround : ∀ d, roundDiv (num * k) (d * k) = roundDiv num d := by
    intro d
    have hmod : 2 * (num * k % (d * k)) = 2 * (num % d) * k := by
      rw [Nat.mul_mod_mul_right, Nat.mul_assoc]
    have hcmp : compare (2 * (num * k % (d * k))) (d * k) = compare (2 * (num % d)) d := by
      rw [hmod]
      simp only [compare, compareOfLessAndEq, Nat.mul_lt_mul_right hk,
        Nat.mul_left_inj (Nat.ne_of_gt hk)]
    simp only [roundDiv, hcmp, hdiv]
  rw [roundSteps, hdiv, show den * k * 2 ^ ((num / den).log2 - 52) =
    den * 2 ^ ((num / den).log2 - 52) * k by ac_rfl, hround]
  rfl

namespace Decimal

theorem steps_zero (e : Int) : (⟨0, e⟩ : Decimal).steps = 0 := by
  have h := Binary64.roundSteps_mul (n := 0) (d := (power e).2) (by decide)
    (Nat.pow_pos (by decide))
  simpa only [steps, Nat.zero_mul] using h

/-- Zeros at the end of the digits make up for the exponent. -/
theorem steps_shift (n : Nat) (e k : Nat) :
    (⟨n * 10 ^ (e + k), -(k : Int)⟩ : Decimal).steps = (⟨n, e⟩ : Decimal).steps := by
  have hk : 0 < 10 ^ k := Nat.pow_pos (by decide)
  simp only [steps, power, Int.toNat_natCast, Int.toNat_neg_natCast, Int.neg_neg, Nat.pow_zero,
    Nat.mul_one]
  rw [← Binary64.roundSteps_mul_mul (n * 10 ^ e * Binary64.perUnit) 1 hk, Nat.one_mul, Nat.pow_add]
  generalize Binary64.perUnit = unit
  congr 1
  ac_rfl

/-- Laying digits out does not change what they read as. -/
theorem steps_decimal_ofDigits (negative : Bool) {ds : List Char} (hd : IsDigits ds) (e : Int) :
    (Literal.ofDigits negative ds e).decimal.steps = (⟨digitsValue ds, e⟩ : Decimal).steps := by
  have hlen : 0 < ds.length := List.length_pos_iff.2 hd.1
  unfold Literal.ofDigits
  dsimp only
  split
  next =>
    split
    next he =>
      -- the digits and `e` zeros before the point, one more zero after it
      obtain ⟨n, rfl⟩ := Int.eq_ofNat_of_zero_le he
      rw [← steps_shift (digitsValue ds) n 1]
      simp [Literal.decimal, Literal.digitsValue_append, Literal.digitsValue_zeros, Nat.pow_succ,
        show digitsValue ['0'] = 0 from rfl]
    next he =>
      split
      next hk =>
        simp only [Literal.decimal, Option.getD_some, List.take_append_drop, List.length_drop]
        congr 2
        omega
      next hk =>
        -- the zeros around the point add nothing to the digits, they only count as places
        have hzero : digitsValue ['0'] = 0 := rfl
        simp only [Literal.decimal, Option.getD_some, Literal.digitsValue_append,
          Literal.digitsValue_zeros, hzero, List.length_append, List.length_replicate]
        congr 2
        · omega
        · omega
  next =>
    have hexp : ∀ k : Int, (if decide (k < 0) = true then -(k.natAbs : Int) else k.natAbs) = k := by
      intro k
      by_cases hk : k < 0
      · simp only [hk, decide_true, if_true]
        omega
      · simp only [hk, decide_false, Bool.false_eq_true, if_false]
        omega
    simp only [Literal.decimal, Literal.digitsValue_toDigits, hexp]
    by_cases h1 : ds.length = 1
    · simp only [if_pos h1, Option.getD_none, List.append_nil, List.length_nil]
      rw [List.take_of_length_le (Nat.le_of_eq h1)]
      congr 2
      omega
    · simp only [if_neg h1, Option.getD_some, List.take_append_drop, List.length_drop]
      congr 2
      omega

end Decimal

namespace Literal

/-- Digits laid out never look like an integer. -/
theorem ofDigits_ne_integer (negative : Bool) (ds : List Char) (e : Int) (negative' : Bool)
    (ds' : List Char) : ofDigits negative ds e ≠ ⟨negative', ds', none, none⟩ := by
  unfold ofDigits
  dsimp only
  intro h
  split at h
  next =>
    split at h
    next => simp at h
    next => split at h <;> simp at h
  next => simp at h

@[simp] theorem negative_ofDigits (negative : Bool) (ds : List Char) (e : Int) :
    (ofDigits negative ds e).negative = negative := by
  unfold ofDigits
  dsimp only
  split
  next =>
    split
    next => rfl
    next => split <;> rfl
  next => rfl

end Literal

namespace Number

/-- The literal that a number is written as. -/
def literal : Number → Literal
  | integer i _ => ⟨i < 0, Nat.toDigits 10 i.natAbs, none, none⟩
  | real x =>
    if (Decimal.shortest x.steps).digits = 0 then .ofDigits x.negative ['0'] 0
    else .ofDigits x.negative (Nat.toDigits 10 (Decimal.shortest x.steps).digits)
      (Decimal.shortest x.steps).exponent

theorem text_eq_chars (n : Number) : n.text = n.literal.chars := by
  cases n with
  | integer i _ =>
    simp [text, literal, Literal.chars, Literal.fractionChars, Literal.exponentChars]
  | real x =>
    simp only [text, literal, Binary64.text, Decimal.text]
    generalize Decimal.shortest x.steps = d
    by_cases h : d.digits = 0
    · simp only [if_pos h, Literal.chars_ofDigits]
    · simp only [if_neg h, Literal.chars_ofDigits]

theorem wellFormed_literal (n : Number) : n.literal.WellFormed := by
  cases n with
  | integer i _ =>
    refine ⟨isDigits_toDigits _, fun ds hds => ?_, nofun, nofun⟩
    by_cases hi : i.natAbs = 0
    · have hds : Nat.toDigits 10 i.natAbs = '0' :: ds := hds
      rw [hi] at hds
      simpa using hds.symm
    · exact absurd (congrArg List.head? hds) (head_toDigits_ne_zero hi)
  | real x =>
    simp only [literal]
    split
    next => exact Literal.wellFormed_ofDigits _ isDigits_zero (.inr ⟨rfl, rfl⟩)
    next h =>
      exact Literal.wellFormed_ofDigits _ (isDigits_toDigits _) (.inl (head_toDigits_ne_zero h))

/-- What a number is written as has its exact value, to the nearest step. -/
theorem steps_decimal_literal (x : Binary64) : (real x).literal.decimal.steps = x.steps := by
  have hx := Decimal.steps_shortest x.onGrid
  simp only [literal]
  generalize Decimal.shortest x.steps = d at hx ⊢
  obtain ⟨digits, exponent⟩ := d
  split
  next h =>
    cases h
    rw [Decimal.steps_zero] at hx
    rw [Decimal.steps_decimal_ofDigits _ isDigits_zero, show digitsValue ['0'] = 0 from rfl,
      Decimal.steps_zero, hx]
  next h =>
    rw [Decimal.steps_decimal_ofDigits _ (isDigits_toDigits _), Literal.digitsValue_toDigits, hx]

@[simp] theorem negative_literal (x : Binary64) : (real x).literal.negative = x.negative := by
  simp only [literal]
  split <;> simp

theorem literal_real_ne_integer (x : Binary64) (i : Int) (hi : InWord i) :
    (real x).literal ≠ (integer i hi).literal := by
  simp only [literal]
  split <;> exact Literal.ofDigits_ne_integer _ _ _ _ _

/-- Different numbers are written as different literals. -/
theorem literal_injective : Function.Injective literal := by
  intro m n h
  cases m with
  | integer i hi =>
    cases n with
    | integer j hj =>
      simp only [literal, Literal.mk.injEq, and_true] at h
      have habs := congrArg digitsValue h.2
      rw [Literal.digitsValue_toDigits, Literal.digitsValue_toDigits] at habs
      have hsign : i < 0 ↔ j < 0 := by simpa using h.1
      have hij : i = j := by omega
      subst hij
      rfl
    | real y => exact absurd h.symm (literal_real_ne_integer y i hi)
  | real x =>
    cases n with
    | integer j hj => exact absurd h (literal_real_ne_integer x j hj)
    | real y =>
      have hsteps : x.steps = y.steps := by
        rw [← steps_decimal_literal x, ← steps_decimal_literal y, h]
      have hsign : x.negative = y.negative := by
        rw [← negative_literal x, ← negative_literal y, h]
      obtain ⟨negative, steps, _, _⟩ := x
      obtain ⟨negative', steps', _, _⟩ := y
      cases hsteps
      cases hsign
      rfl

/-- A scanner gets the literal of a number back from its text. -/
theorem scanNumber_text (n : Number) {rest : List Char} (hr : Delimited rest) :
    Source.scanNumber (n.text ++ rest) = .ok (n.literal, rest) := by
  rw [text_eq_chars]
  exact Source.scanNumber_chars n.wellFormed_literal hr

/-- Texts of numbers in which nothing goes on with the number come from one number. -/
theorem text_append_inj {m n : Number} {rest rest' : List Char} (hr : Delimited rest)
    (hr' : Delimited rest') (h : m.text ++ rest = n.text ++ rest') : m = n ∧ rest = rest' := by
  have hscan := scanNumber_text m hr
  rw [h, scanNumber_text n hr'] at hscan
  injection hscan with hscan
  injection hscan with hl hrest
  exact ⟨literal_injective hl.symm, hrest.symm⟩

end Number

end Sieve
