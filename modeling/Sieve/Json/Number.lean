import Sieve.Decimal

/-!
# JSON numbers

A number is an integer of at most 64 bits, signed or unsigned, or a binary64 number.  The two kinds
are kept apart: `1` and `1.0` are different numbers of equal value.

* `Literal`: the parts of a number in JSON text;
* `Literal.read`: the number that a literal stands for.  A literal without point and exponent is an
  integer if it fits and is not `-0`.  Otherwise its leading digits, as many as fit in 64 bits, are
  scaled by the power of ten, and every step is rounded; a result beyond the range is refused;
* `Number.text`: how a number is written.
-/

namespace Sieve

/-- The integers that fit in 64 bits, signed or unsigned. -/
def InWord (i : Int) : Prop := -2 ^ 63 ≤ i ∧ i < 2 ^ 64

instance (i : Int) : Decidable (InWord i) := inferInstanceAs (Decidable (_ ∧ _))

/-- A JSON number. -/
inductive Number
  | integer (i : Int) (inWord : InWord i)
  | real (x : Binary64)
  deriving DecidableEq

namespace Number

/-- An integer as a number; one that does not fit in 64 bits becomes the nearest binary64 number. -/
def ofInt (i : Int) : Number :=
  if h : InWord i then integer i h
  else real ((Binary64.nearest (i < 0) i.natAbs 1).getD (.zero false))

/-- The value of a number, rounded to binary64. -/
def toBinary64 : Number → Binary64
  | integer i h => Binary64.ofInt i (by have := h.1; have := h.2; omega)
  | real x => x

/-- Equality within a kind: the same integer, or binary64 numbers of equal value. -/
instance : BEq Number where
  beq
    | integer i _, integer j _ => i == j
    | real x, real y => x == y
    | _, _ => false

/-- The text of a number. -/
def text : Number → List Char
  | integer i _ => (if i < 0 then ['-'] else []) ++ Nat.toDigits 10 i.natAbs
  | real x => x.text .json

end Number

/-- The value of a decimal digit. -/
def digitValue (c : Char) : Nat := c.toNat - '0'.toNat

/-- The value of a row of decimal digits. -/
def digitsValue (ds : List Char) : Nat := ds.foldl (fun n c => 10 * n + digitValue c) 0

/-- The parts of a number in JSON text: digits before the point, after the point, and exponent. -/
structure Literal where
  negative : Bool
  whole : List Char
  fraction : Option (List Char)
  exponent : Option (Bool × List Char)
  deriving DecidableEq

namespace Literal

/-- The greatest integer of 64 bits. -/
def wordMax : Nat := 2 ^ 64 - 1

/-- Digits read from the left into 64 bits: the value of those that fit, and the rest. -/
def fitting : Nat → List Char → Nat × List Char
  | n, [] => (n, [])
  | n, c :: cs =>
    if 10 * n + digitValue c ≤ wordMax then fitting (10 * n + digitValue c) cs else (n, c :: cs)

/-- Scales by a power of ten; a quotient by more than `10 ^ 308` is taken in several steps, and
three such steps leave nothing of a 64-bit integer. -/
def scale (x : Binary64) (e : Int) : Option Binary64 :=
  let tens (k : Nat) : Binary64 := (Binary64.nearest false (10 ^ min k 308) 1).getD .one
  if 0 ≤ e then
    if e ≤ 308 then x.mul (tens e.toNat) else if x.steps = 0 then some x else none
  else
    let k := (-e).toNat
    let far := min ((k - 1) / 308) 3
    let y := Nat.repeat (fun y => (y.div (tens 308)).getD y) far x
    y.div (tens (k - 308 * far))

/-- The binary64 number of a literal; `none` beyond the range. -/
def readReal (l : Literal) : Option Binary64 :=
  let (n, dropped) := fitting 0 l.whole
  let (m, late) := fitting n (l.fraction.getD [])
  let shift : Int := dropped.length - ((l.fraction.getD []).length - late.length : Nat)
  let magnitude : Option Binary64 := (Binary64.nearest false m 1).bind fun x =>
    match l.exponent with
    | none => scale x shift
    | some (down, ds) =>
      if 2 ^ 31 ≤ digitsValue ds then
        if m = 0 ∨ down then some (.zero false) else none
      else scale x (if down then shift - digitsValue ds else shift + digitsValue ds)
  magnitude.map fun x => if l.negative then x.neg else x

/-- The integer of a literal that has neither point nor exponent and is not `-0`. -/
def readInt (l : Literal) : Option Int :=
  if l.fraction.isNone ∧ l.exponent.isNone then
    let n := digitsValue l.whole
    if l.negative then (if n = 0 then none else some (-n)) else some n
  else none

/-- The number of a literal; `none` beyond the range. -/
def read (l : Literal) : Option Number :=
  match l.readInt with
  | some i => if h : InWord i then some (.integer i h) else l.readReal.map .real
  | none => l.readReal.map .real

end Literal

end Sieve
