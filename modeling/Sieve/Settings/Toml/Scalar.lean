import Sieve.Calendar
import Sieve.Settings.Layer
import Sieve.Settings.Toml.Text

/-!
# Words in TOML

The values that are written without quotes.

* `number?`: numbers in base ten, a point or an exponent making them real.  Underscores may stand between
  digits, and a real number may not be too large;
* `based?`: integers in base sixteen, eight and two;
* `moment?`: dates, times and both, which are settings of text in one form;
* `word?`: any of these, or a truth value.
-/

namespace Sieve.Toml

open Numeral (isDigitOf)

/-! ### Numbers -/

/-- Takes out the underscores, each of which has to stand between two digits. -/
def ungroup? (isDigit : Char → Bool) : List Char → Option (List Char)
  | [] => some []
  | d :: '_' :: e :: cs =>
    if isDigit d ∧ isDigit e then (ungroup? isDigit (e :: cs)).map (d :: ·) else none
  | c :: cs => if c = '_' then none else (ungroup? isDigit cs).map (c :: ·)

/-- Digits without a needless zero in front. -/
def isWhole : List Char → Bool
  | ['0'] => true
  | '0' :: _ => false
  | ds => Numeral.isDigits ds

/-- An integer in another base. -/
def based? (base : Nat) (cs : List Char) : Option Setting := do
  let ds ← ungroup? (isDigitOf base) cs
  return .int (← Numeral.ofDigits? base false ds)

/-- A decimal with a point or an exponent, digits on both sides of the point. -/
def isDecimal (cs : List Char) : Bool :=
  isWhole (cs.takeWhile Char.isDigit) &&
    match cs.dropWhile Char.isDigit with
    | '.' :: d :: _ => d.isDigit
    | rest => rest.head? ≠ some '.'

/-- A real number, if it is not too large to be one. -/
def finite? : Extended → Option Setting
  | .number x => some (.real (.number x))
  | _ => none

/-- A number in base ten. -/
def number? (cs : List Char) : Option Setting := do
  let cs ← ungroup? Char.isDigit cs
  let (negative, ds) := Numeral.unsign cs
  if isWhole ds then (Numeral.int? cs).map .int
  else if ds = ['i', 'n', 'f'] then some (.real (.infinity negative))
  else if ds = ['n', 'a', 'n'] then some (.real .undefined)
  else if isDecimal ds then (Numeral.decimal? negative ds).bind finite?
  else none

/-! ### Dates and times -/

open Instant (char? digits? fixed?)

/-- A day that exists, as text. -/
def date? (cs : List Char) : Option (List Char × List Char) := do
  let (year, rest) ← fixed? 4 cs
  let (month, rest) ← fixed? 2 (← char? '-' rest)
  let (day, rest) ← fixed? 2 (← char? '-' rest)
  if 1 ≤ day ∧ day ≤ Date.monthLength year month then some (cs.take 10, rest) else none

/-- The fraction of a second as text: nine digits count, without needless zeros at the end. -/
def fraction? : List Char → Option (List Char × List Char)
  | '.' :: cs =>
    match cs.span Char.isDigit with
    | ([], _) => none
    | (d :: ds, rest) =>
      some ('.' :: d :: ((ds.take 8).reverse.dropWhile (· = '0')).reverse, rest)
  | cs => some ([], cs)

/-- A second with its fraction as text; there may be none. -/
def second? : List Char → Option (List Char × List Char)
  | ':' :: cs => do
    let (second, rest) ← fixed? 2 cs
    let (fraction, rest) ← fraction? rest
    if second ≤ 60 then some (':' :: cs.take 2 ++ fraction, rest) else none
  | cs => some ([], cs)

/-- A time of day as text. -/
def time? (cs : List Char) : Option (List Char × List Char) := do
  let (hour, rest) ← fixed? 2 cs
  let (minute, rest) ← fixed? 2 (← char? ':' rest)
  let (second, rest) ← second? rest
  if hour ≤ 23 ∧ minute ≤ 59 then some (cs.take 5 ++ second, rest) else none

/-- Hours and minutes as text after a sign, which is a plus if there are none. -/
def amount? (sign : Char) (cs : List Char) : Option (List Char) := do
  let (hours, rest) ← fixed? 2 cs
  let (minutes, rest) ← fixed? 2 (← char? ':' rest)
  if rest.isEmpty ∧ hours ≤ 23 ∧ minutes ≤ 59 then
    some ((if hours = 0 ∧ minutes = 0 then '+' else sign) :: cs)
  else none

/-- An offset from UTC as text; there may be none. -/
def offset? : List Char → Option (List Char)
  | [] => some []
  | '+' :: cs => amount? '+' cs
  | '-' :: cs => amount? '-' cs
  | cs => if cs = ['Z'] ∨ cs = ['z'] then some ['Z'] else none

/-- The time that may follow a date, as text with the letter between both. -/
def timeAfterDate? : List Char → Option (List Char)
  | [] => some []
  | c :: cs => do
    if c = 'T' ∨ c = 't' ∨ c = ' ' then
      let (time, rest) ← time? cs
      return 'T' :: time ++ (← offset? rest)
    else none

/-- A date, a time or both as text. -/
def moment? (cs : List Char) : Option (List Char) :=
  match date? cs with
  | some (date, rest) => (timeAfterDate? rest).map (date ++ ·)
  | none =>
    match time? cs with
    | some (time, []) => some time
    | _ => none

/-! ### Words -/

/-- A value that is one word. -/
def word? : List Char → Option Setting
  | ['t', 'r', 'u', 'e'] => some (.truth true)
  | ['f', 'a', 'l', 's', 'e'] => some (.truth false)
  | '0' :: 'x' :: ds => based? 16 ds
  | '0' :: 'o' :: ds => based? 8 ds
  | '0' :: 'b' :: ds => based? 2 ds
  | cs => (number? cs).or ((moment? cs).map fun text => .text (String.ofList text))

/-- A character of a word. -/
def isInWord (c : Char) : Bool := Step.isPlain c || c = '+' || c = '.' || c = ':'

/-- The word at the start of a text, and what follows.  A time after a blank belongs to the date
before it. -/
def takeWord (cs : List Char) : List Char × List Char :=
  let word := cs.takeWhile isInWord
  let rest := cs.drop word.length
  match rest with
  | ' ' :: d :: _ =>
    if d.isDigit ∧ (date? word).any (·.2.isEmpty) then
      let time := (rest.drop 1).takeWhile isInWord
      (word ++ ' ' :: time, rest.drop (time.length + 1))
    else (word, rest)
  | _ => (word, rest)

end Sieve.Toml
