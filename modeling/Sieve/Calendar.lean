import Sieve.Json.Number

/-!
# Points in time

Two written forms name a point in time:

* a timestamp `YYYY-MM-DDThh:mm:ss`, with an optional fraction of a second and an offset from UTC;
  the letters may be small and `T` may be a blank.  Second 60 lies after every fraction of second
  59 and before the next minute;
* a date `Y-M-D`, the midnight in UTC that begins it.  Its numbers may have blanks in front and need
  no leading zeros; a year with a sign may have any number of digits.

Days follow the Gregorian calendar in both directions.

* `Date.dayNumber`: days are numbered without gaps;
* `Instant`: seconds of such days and a fraction, ordered by `Instant.lt`;
* `Instant.ofChars?`: the point in time that a text names.
-/

namespace Sieve

/-- A year, month and day. -/
structure Date where
  year : Int
  month : Nat
  day : Nat
  deriving DecidableEq, Repr

namespace Date

/-- A year with a 29th of February. -/
def isLeap (y : Int) : Bool := y % 4 = 0 && (y % 100 ≠ 0 || y % 400 = 0)

/-- The days of a month, none for a number that is no month. -/
def monthLength (y : Int) (m : Nat) : Nat :=
  match m with
  | 1 | 3 | 5 | 7 | 8 | 10 | 12 => 31
  | 4 | 6 | 9 | 11 => 30
  | 2 => if isLeap y then 29 else 28
  | _ => 0

/-- The days of a year before a month. -/
def daysBefore (y : Int) : Nat → Nat
  | 0 => 0
  | m + 1 => daysBefore y m + monthLength y m

/-- A day that exists, in a year from -262143 to 262142. -/
def Valid (d : Date) : Prop :=
  (-262143 ≤ d.year ∧ d.year ≤ 262142) ∧ 1 ≤ d.day ∧ d.day ≤ monthLength d.year d.month

instance (d : Date) : Decidable d.Valid := inferInstanceAs (Decidable (_ ∧ _))

/-- The number of a day, counted from the last day before year 1. -/
def dayNumber (d : Date) : Int :=
  let y := d.year - 1
  365 * y + y / 4 - y / 100 + y / 400 + daysBefore d.year d.month + d.day

end Date

/-- A second and a fraction of it in nanoseconds; in second 60 of a minute the fraction goes on from
one second to two. -/
structure Instant where
  second : Int
  nanosecond : Nat
  deriving DecidableEq, Repr

namespace Instant

/-- The order in time. -/
instance : Ord Instant :=
  ⟨fun a b => (compare a.second b.second).then (compare a.nanosecond b.nanosecond)⟩

/-- The beginning of a day. -/
def ofDate (d : Date) : Instant := ⟨86400 * d.dayNumber, 0⟩

/-! ### Reading -/

/-- Reads exactly `n` digits. -/
def digits? : Nat → List Char → Option (List Char × List Char)
  | 0, cs => some ([], cs)
  | n + 1, c :: cs =>
    if c.isDigit then (digits? n cs).map fun (ds, rest) => (c :: ds, rest) else none
  | _ + 1, [] => none

/-- Reads a number of exactly `n` digits. -/
def fixed? (n : Nat) (cs : List Char) : Option (Nat × List Char) :=
  (digits? n cs).map fun (ds, rest) => (digitsValue ds, rest)

/-- Reads a given character. -/
def char? (c : Char) : List Char → Option (List Char)
  | d :: cs => if c = d then some cs else none
  | [] => none

/-- Reads the fraction of a second, of which nine digits count. -/
def fraction? : List Char → Option (Nat × List Char)
  | '.' :: cs => match cs.span Char.isDigit with
    | ([], _) => none
    | (ds, rest) =>
      let used := ds.take 9
      some (digitsValue used * 10 ^ (9 - used.length), rest)
  | cs => some (0, cs)

/-- Reads an offset from UTC, in seconds. -/
def offset? : List Char → Option (Int × List Char)
  | 'Z' :: cs => some (0, cs)
  | 'z' :: cs => some (0, cs)
  | '+' :: cs => (amount cs).map fun (n, rest) => ((n : Int), rest)
  | '-' :: cs => (amount cs).map fun (n, rest) => (-(n : Int), rest)
  | '\u2212' :: cs => (amount cs).map fun (n, rest) => (-(n : Int), rest)
  | _ => none
where
  /-- Hours and minutes, in seconds. -/
  amount (cs : List Char) : Option (Nat × List Char) := do
    let (h, cs) ← fixed? 2 cs
    let cs ← char? ':' cs
    let (m, cs) ← fixed? 2 cs
    if h ≤ 23 ∧ m ≤ 59 then some (3600 * h + 60 * m, cs) else none

/-- The point in time of a timestamp. -/
def ofTimestamp? (cs : List Char) : Option Instant := do
  let (year, cs) ← fixed? 4 cs
  let cs ← char? '-' cs
  let (month, cs) ← fixed? 2 cs
  let cs ← char? '-' cs
  let (day, cs) ← fixed? 2 cs
  let cs ← (char? 'T' cs).orElse fun _ => (char? 't' cs).orElse fun _ => char? ' ' cs
  let (hour, cs) ← fixed? 2 cs
  let cs ← char? ':' cs
  let (minute, cs) ← fixed? 2 cs
  let cs ← char? ':' cs
  let (second, cs) ← fixed? 2 cs
  let (fraction, cs) ← fraction? cs
  let (offset, cs) ← offset? cs
  let date : Date := ⟨year, month, day⟩
  if cs = [] ∧ date.Valid ∧ hour ≤ 23 ∧ minute ≤ 59 ∧ second ≤ 60 then
    let seconds := 3600 * hour + 60 * minute + min second 59
    some ⟨86400 * date.dayNumber + seconds - offset,
      fraction + if second = 60 then 1000000000 else 0⟩
  else none

/-- White space of any script. -/
def isSpace (c : Char) : Bool :=
  let n := c.toNat
  (9 ≤ n && n ≤ 13) || n = 0x20 || n = 0x85 || n = 0xA0 || n = 0x1680 ||
    (0x2000 ≤ n && n ≤ 0x200A) || n = 0x2028 || n = 0x2029 || n = 0x202F || n = 0x205F || n = 0x3000

/-- Reads a number of one to `most` digits, or of any positive number of them. -/
def number? (most : Option Nat) (cs : List Char) : Option (Nat × List Char) :=
  let ds := cs.takeWhile Char.isDigit
  let ds := match most with
    | some n => ds.take n
    | none => ds
  if ds = [] then none else some (digitsValue ds, cs.drop ds.length)

/-- Reads a year. -/
def year? (cs : List Char) : Option (Int × List Char) :=
  match cs with
  | '-' :: cs => (number? none cs).map fun (n, rest) => (-(n : Int), rest)
  | '+' :: cs => (number? none cs).map fun (n, rest) => ((n : Int), rest)
  | cs => (number? (some 4) cs).map fun (n, rest) => ((n : Int), rest)

/-- The point in time of a date. -/
def ofDateText? (cs : List Char) : Option Instant := do
  let (year, cs) ← year? (cs.dropWhile isSpace)
  let cs ← char? '-' cs
  let (month, cs) ← number? (some 2) (cs.dropWhile isSpace)
  let cs ← char? '-' cs
  let (day, cs) ← number? (some 2) (cs.dropWhile isSpace)
  let date : Date := ⟨year, month, day⟩
  if cs = [] ∧ date.Valid then some (ofDate date) else none

/-- The point in time that a text names. -/
def ofChars? (cs : List Char) : Option Instant := (ofTimestamp? cs).orElse fun _ => ofDateText? cs

end Instant

end Sieve
