import Sieve.Binary64.Extended
import Sieve.Decimal
import Sieve.Json.Number

/-!
# Numbers in settings

* `Numeral.valueIn`: the value of digits in some base, and `Numeral.coded?` the character with such a
  code;
* `Numeral.ofDigits?`: an integer of 64 bits from its digits, and `Numeral.int?` from decimal digits with
  or without a sign;
* `Numeral.real?`: a binary64 value from a decimal with or without point and exponent, or from the
  words for infinity and for an undefined value;
* `Extended.text`: a binary64 value in decimals, never with an exponent;
* `Extended.rounded`: the nearest natural number of 64 bits, a half going up.
-/

namespace Sieve

/-- The value nearest to a decimal `m * 10 ^ e` of `count` digits.  Far outside the range it is not
worked out. -/
def Extended.ofDecimal (negative : Bool) (m count : Nat) (e : Int) : Extended :=
  if m = 0 ∨ e + count < -400 then number (.zero negative)
  else if 400 < e + count then infinity negative
  else if 0 ≤ e then ofNumber? negative (Binary64.nearest negative (m * 10 ^ e.toNat) 1)
  else ofNumber? negative (Binary64.nearest negative m (10 ^ (-e).toNat))

/-- A value in decimals. -/
def Extended.text : Extended → String
  | number x => String.ofList (x.text .plain)
  | infinity s => if s then "-inf" else "inf"
  | undefined => "NaN"

/-- The nearest natural number of 64 bits. -/
def Extended.rounded : Extended → Nat
  | number x =>
    if x.negative then 0
    else min ((2 * x.steps + Binary64.perUnit) / (2 * Binary64.perUnit)) (2 ^ 64 - 1)
  | infinity s => if s then 0 else 2 ^ 64 - 1
  | undefined => 0

namespace Numeral

/-- Takes off a sign, and says whether it is a minus. -/
def unsign : List Char → Bool × List Char
  | '-' :: cs => (true, cs)
  | '+' :: cs => (false, cs)
  | cs => (false, cs)

/-- A row of at least one digit. -/
def isDigits (cs : List Char) : Bool := !cs.isEmpty && cs.all Char.isDigit

/-! ### Digits -/

/-- The value of a digit; letters go on after nine. -/
def digitOf (c : Char) : Nat := if c.isDigit then c.toNat - 48 else c.toLower.toNat - 87

/-- A digit of a base. -/
def isDigitOf (base : Nat) (c : Char) : Bool := c.isAlphanum && decide (digitOf c < base)

/-- The value of digits. -/
def valueIn (base : Nat) (ds : List Char) : Nat := ds.foldl (fun n d => base * n + digitOf d) 0

/-- The character with a hexadecimal code. -/
def coded? (ds : List Char) : Option Char :=
  if ds.all (isDigitOf 16) ∧ (valueIn 16 ds).isValidChar then some (Char.ofNat (valueIn 16 ds))
  else none

/-- An integer of 64 bits with a sign. -/
def inRange? (i : Int) : Option Int := if -2 ^ 63 ≤ i ∧ i < 2 ^ 63 then some i else none

/-- The integer with given digits. -/
def ofDigits? (base : Nat) (negative : Bool) (ds : List Char) : Option Int :=
  let n : Int := valueIn base ds
  if ds.isEmpty ∨ ¬ ds.all (isDigitOf base) then none else inRange? (if negative then -n else n)

/-! ### Decimals -/

/-- An integer. -/
def int? (cs : List Char) : Option Int :=
  let (negative, ds) := unsign cs
  ofDigits? 10 negative ds

/-- An exponent after the digits of a decimal. -/
def exponent? : List Char → Option Int
  | [] => some 0
  | e :: cs =>
    let (negative, ds) := unsign cs
    if e.toLower = 'e' ∧ isDigits ds then
      some (if negative then -digitsValue ds else digitsValue ds)
    else none

/-- A decimal without a sign. -/
def decimal? (negative : Bool) (cs : List Char) : Option Extended :=
  let whole := cs.takeWhile Char.isDigit
  let (fraction, rest) := match cs.dropWhile Char.isDigit with
    | '.' :: rest => (rest.takeWhile Char.isDigit, rest.dropWhile Char.isDigit)
    | rest => ([], rest)
  let ds := whole ++ fraction
  if ds.isEmpty then none
  else (exponent? rest).map fun e =>
    let significant := ds.dropWhile (· = '0')
    .ofDecimal negative (digitsValue significant) significant.length (e - fraction.length)

/-- A binary64 value. -/
def real? (cs : List Char) : Option Extended :=
  let (negative, rest) := unsign cs
  let word := String.ofList (rest.map Char.toLower)
  if word = "inf" ∨ word = "infinity" then some (.infinity negative)
  else if word = "nan" then some .undefined
  else decimal? negative rest

end Numeral

end Sieve
