import Sieve.Binary64

/-!
# Decimal text of binary64 numbers

A number is written with the fewest decimal digits that read back as the same number.

* `Decimal.steps`: the count of steps nearest to a decimal, so what a decimal reads as;
* `shortest`: on the coarsest decimal grid where one of the two neighbours of a number reads back,
  the nearer such neighbour, an even digit deciding a tie.  `steps_shortest` says that it always
  reads back;
* `Layout`: how digits and exponent are laid out as text, with `Layout.json` for JSON text and
  `Layout.plain` for text without exponents.
-/

namespace Sieve

/-- The decimal `digits * 10 ^ exponent`. -/
structure Decimal where
  digits : Nat
  exponent : Int
  deriving DecidableEq, Repr

namespace Decimal

/-- The factors `(n, d)` with `10 ^ e = n / d`. -/
def power (e : Int) : Nat × Nat := (10 ^ e.toNat, 10 ^ (-e).toNat)

/-- The count of steps nearest to a decimal. -/
def steps (d : Decimal) : Nat :=
  Binary64.roundSteps (d.digits * (power d.exponent).1 * Binary64.perUnit) (power d.exponent).2

/-- The two neighbours of `n` steps among the multiples of `10 ^ e`, the nearer one first. -/
def neighbours (n : Nat) (e : Int) : List Nat :=
  let num := n * (power e).2
  let den := Binary64.perUnit * (power e).1
  let low := num / den
  match compare (2 * (num % den)) den with
  | .lt => [low, low + 1]
  | .eq => if low % 2 = 0 then [low, low + 1] else [low + 1, low]
  | .gt => [low + 1, low]

/-- The nearest multiple of `10 ^ e` that reads back as `n` steps. -/
def onGrid? (n : Nat) (e : Int) : Option Decimal :=
  ((neighbours n e).map (⟨·, e⟩)).find? (fun d => d.steps = n)

/-- An exponent whose power of ten is above `n` steps, by at most four digits. -/
def ceiling (n : Nat) : Int := ((n.log2 : Int) - 1073) * 30103 / 100000 + 2

/-- The decimal with the fewest digits that reads back as `n` steps.  Seventeen digits suffice, and
they start at most three below the ceiling. -/
def shortest (n : Nat) : Decimal :=
  ((List.range 20).findSome? fun i : Nat => onGrid? n (ceiling n - i)).getD
    ⟨n * 5 ^ 1074, -1074⟩

theorem power_neg (k : Nat) : power (-(k : Int)) = (1, 10 ^ k) := by
  simp [power]

theorem steps_of_onGrid? {n : Nat} {e : Int} {d : Decimal} (h : onGrid? n e = some d) :
    d.steps = n := by
  simpa using List.find?_some h

/-- The decimal that is chosen reads back. -/
theorem steps_shortest {n : Nat} (h : Binary64.OnGrid n) : (shortest n).steps = n := by
  unfold shortest
  generalize List.range 20 = es
  cases hs : es.findSome? fun i : Nat => onGrid? n (ceiling n - i) with
  | some d =>
    obtain ⟨i, _, hi⟩ := List.exists_of_findSome?_eq_some hs
    exact steps_of_onGrid? hi
  | none =>
    have h10 : (5 : Nat) ^ 1074 * Binary64.perUnit = 10 ^ 1074 := by decide +kernel
    have hp : power (-1074) = (1, 10 ^ 1074) := power_neg 1074
    have hpos : (0 : Nat) < 10 ^ 1074 := by decide +kernel
    simp only [Option.getD_none, steps, hp, Nat.mul_one]
    rw [Nat.mul_assoc, h10]
    exact Binary64.roundSteps_mul h hpos

/-- How a decimal is laid out: which leading exponents are written without `e`, and whether a
whole number keeps `.0`. -/
structure Layout where
  positional : Int → Bool
  keepsPoint : Bool

/-- JSON text: positional from `10 ^ -5` to below `10 ^ 16`, always with a point. -/
def Layout.json : Layout := ⟨fun k => -5 ≤ k && k ≤ 15, true⟩

/-- Text without exponents, where whole numbers have no point. -/
def Layout.plain : Layout := ⟨fun _ => true, false⟩

/-- The text of `10 ^ e` times the number with the given digits. -/
def layOut (l : Layout) (ds : List Char) (e : Int) : List Char :=
  let k : Int := ds.length - 1 + e
  if l.positional k then
    if 0 ≤ e then
      ds ++ List.replicate e.toNat '0' ++ (if l.keepsPoint then ['.', '0'] else [])
    else if 0 ≤ k then
      ds.take (k.toNat + 1) ++ '.' :: ds.drop (k.toNat + 1)
    else
      '0' :: '.' :: List.replicate (-k - 1).toNat '0' ++ ds
  else
    ds.take 1 ++ (if ds.length = 1 then [] else '.' :: ds.drop 1) ++
      'e' :: (if 0 ≤ k then '+' else '-') :: Nat.toDigits 10 k.natAbs

/-- The text of a decimal. -/
def text (l : Layout) (d : Decimal) : List Char :=
  if d.digits = 0 then layOut l ['0'] 0 else layOut l (Nat.toDigits 10 d.digits) d.exponent

end Decimal

/-- The text of a binary64 number, with the fewest digits that read back. -/
def Binary64.text (l : Decimal.Layout) (x : Binary64) : List Char :=
  (if x.negative then ['-'] else []) ++ (Decimal.shortest x.steps).text l

end Sieve
