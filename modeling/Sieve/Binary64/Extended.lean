import Sieve.Binary64

/-!
# Binary64 arithmetic with infinities

Products, quotients and powers of binary64 numbers may leave the finite range.  `Extended` adds
the two infinities and the undefined value that such arithmetic yields.

* `power a n`: the power by repeated squaring, each product rounded; a negative exponent takes the
  reciprocal last, so `0 ^ -1` is infinite and `∞ * 0` is undefined;
* `atMost`: the smaller of two values, where an undefined value gives way to the other;
* `toWord`: the whole part as a 64-bit word, cut off at both ends, an undefined value being `0`.
-/

namespace Sieve

/-- A binary64 value: a finite number, an infinity or undefined. -/
inductive Extended
  | number (x : Binary64)
  | infinity (negative : Bool)
  | undefined
  deriving DecidableEq

namespace Extended

/-- The outcome of an operation that leaves the range with the given sign. -/
def ofNumber? (negative : Bool) : Option Binary64 → Extended
  | some x => number x
  | none => infinity negative

/-- The number nearest to a natural number. -/
def ofNat (n : Nat) : Extended := ofNumber? false (Binary64.nearest false n 1)

/-- The rounded product. -/
def mul : Extended → Extended → Extended
  | number x, number y => ofNumber? (x.negative ^^ y.negative) (x.mul y)
  | number x, infinity s => if x.steps = 0 then undefined else infinity (x.negative ^^ s)
  | infinity s, number y => if y.steps = 0 then undefined else infinity (s ^^ y.negative)
  | infinity s, infinity t => infinity (s ^^ t)
  | _, _ => undefined

/-- The rounded reciprocal. -/
def reciprocal : Extended → Extended
  | number x => if x.steps = 0 then infinity x.negative
    else ofNumber? x.negative (Binary64.one.div x)
  | infinity s => number (.zero s)
  | undefined => undefined

/-- `r * a ^ n` by repeated squaring over the lowest `bits` binary digits of `n`. -/
def powerLoop : Nat → Extended → Extended → Nat → Extended
  | 0, r, _, _ => r
  | bits + 1, r, a, n => powerLoop bits (if n % 2 = 1 then r.mul a else r) (a.mul a) (n / 2)

/-- The power `a ^ n` for an exponent of at most 32 bits. -/
def power (a : Extended) (n : Int) : Extended :=
  let p := powerLoop 32 (number .one) a n.natAbs
  if n < 0 then p.reciprocal else p

/-- The order of the values other than `undefined`, where an infinity is beyond every number. -/
def lt : Extended → Extended → Bool
  | number x, number y => x.signedSteps < y.signedSteps
  | number _, infinity s => !s
  | infinity s, number _ => s
  | infinity s, infinity t => s && !t
  | _, _ => false

/-- The smaller of two values; an undefined value gives way to the other. -/
def atMost : Extended → Extended → Extended
  | undefined, y => y
  | x, undefined => x
  | x, y => if y.lt x then y else x

/-- The whole part as a 64-bit word, cut off at both ends. -/
def toWord : Extended → Nat
  | number x => if x.negative then 0 else min (x.steps / Binary64.perUnit) (2 ^ 64 - 1)
  | infinity s => if s then 0 else 2 ^ 64 - 1
  | undefined => 0

end Extended

end Sieve
