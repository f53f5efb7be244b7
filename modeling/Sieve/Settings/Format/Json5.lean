import Sieve.Json.Source
import Sieve.Settings.Format.Ini

/-!
# JSON5

A reader of settings files in JSON5: JSON with comments, commas after the last item, names without
quotes, strings in single quotes, and more ways to write a number.

* `string?`: a string after its opening quote;
* `number?`: a number from the word that it is.  Integers have 64 bits with a sign, those in base
  sixteen 32 bits without;
* `Json5.read?`: a document, which has to be an object.
-/

namespace Sieve.Json5

/-! ### Blanks -/

/-- A character that ends a line. -/
def isNewline (c : Char) : Bool := c = '\n' || c = '\r' || c = '\u2028' || c = '\u2029'

/-- A character between tokens. -/
def isBlank (c : Char) : Bool := Instant.isSpace c || c = '\ufeff'

/-- What follows a comment in stars. -/
def afterComment? : List Char → Option (List Char)
  | [] => none
  | '*' :: '/' :: rest => some rest
  | _ :: rest => afterComment? rest

/-- Passes over blanks and comments. -/
def skip : Nat → List Char → List Char
  | 0, cs => cs
  | fuel + 1, cs =>
    match cs.dropWhile isBlank with
    | '/' :: '/' :: rest => skip fuel (rest.dropWhile fun c => !isNewline c)
    | '/' :: '*' :: rest => ((afterComment? rest).map (skip fuel)).getD ('/' :: '*' :: rest)
    | rest => rest

/-! ### Strings and names -/

/-- The character that a character after a backslash stands for. -/
def escaped? (c : Char) : Option Char :=
  match c with
  | 'b' => some '\x08'
  | 'f' => some '\x0c'
  | 'n' => some '\n'
  | 'r' => some '\r'
  | 't' => some '\t'
  | 'v' => some '\x0b'
  | '0' => some '\x00'
  | c => if c.isDigit ∨ c = 'x' ∨ c = 'u' then none else some c

/-- A string after its opening quote, or after a first half of a surrogate pair. -/
def string? (quote : Char) : Option Nat → List Char → Option (List Char × List Char)
  | pending, '\\' :: 'u' :: a :: b :: c :: d :: rest => do
    let n ← Source.hexUnit? a b c d
    let with? (x : Char) : Option (List Char × List Char) :=
      (string? quote none rest).map fun (text, rest) => (x :: text, rest)
    match pending, Source.Unit16.of n with
    | none, .whole => with? (Char.ofNat n)
    | none, .high => string? quote (some n) rest
    | some m, .low => with? (Source.pairChar m n)
    | _, _ => none
  | some _, _ => none
  | _, [] => none
  | _, '\\' :: 'x' :: a :: b :: rest => do
    let x ← Numeral.coded? [a, b]
    let (text, rest) ← string? quote none rest
    return (x :: text, rest)
  | _, '\\' :: '\r' :: '\n' :: rest => string? quote none rest
  | _, '\\' :: c :: rest =>
    if isNewline c then string? quote none rest
    else do
      let x ← escaped? c
      let (text, rest) ← string? quote none rest
      return (x :: text, rest)
  | _, c :: rest =>
    if c = quote then some ([], rest)
    else if c = '\\' ∨ c = '\n' ∨ c = '\r' then none
    else (string? quote none rest).map fun (text, rest) => (c :: text, rest)

/-- A character of a name without quotes. -/
def isInName (c : Char) : Bool :=
  c.isAlphanum || c = '$' || c = '_' || (127 < c.toNat && !isBlank c)

/-- The name of a member. -/
def name? : List Char → Option (String × List Char)
  | [] => none
  | c :: cs =>
    if c = '"' ∨ c = '\x27' then
      (string? c none cs).map fun (text, rest) => (String.ofList text, rest)
    else
      let name := (c :: cs).takeWhile isInName
      if name.isEmpty ∨ c.isDigit then none else some (String.ofList name, (c :: cs).drop name.length)

/-! ### Numbers -/

/-- A number in base ten without a sign, from its characters. -/
def decimal? (negative : Bool) (ds : List Char) : Option Setting :=
  let whole := ds.takeWhile Char.isDigit
  if 1 < whole.length ∧ whole.head? = some '0' then none
  else if whole = ds then (Numeral.int? (if negative then '-' :: ds else ds)).map .int
  else
    match Numeral.decimal? negative ds with
    | some (.number x) => some (.real (.number x))
    | _ => none

/-- A number. -/
def number? (cs : List Char) : Option Setting :=
  match cs with
  | '0' :: x :: ds =>
    if x = 'x' ∨ x = 'X' then
      let n := Numeral.valueIn 16 ds
      if ds.isEmpty ∨ ¬ ds.all (Numeral.isDigitOf 16) ∨ 2 ^ 32 ≤ n then none else some (.int n)
    else decimal? false cs
  | cs =>
    let (negative, ds) := Numeral.unsign cs
    match String.ofList ds with
    | "Infinity" => some (.real (.infinity negative))
    | "NaN" => some (.real .undefined)
    | _ => decimal? negative ds

/-- A value that is one word. -/
def word? (cs : List Char) : Option Setting :=
  match String.ofList cs with
  | "null" => some .null
  | "true" => some (.truth true)
  | "false" => some (.truth false)
  | _ => number? cs

/-! ### Values -/

mutual

/-- A value, and what follows. -/
def value? : Nat → List Char → Option (Setting × List Char)
  | 0, _ => none
  | fuel + 1, cs =>
    match cs with
    | [] => none
    | '[' :: cs => (items? fuel cs).map fun (items, rest) => (.list items, rest)
    | '\x7b' :: cs => (members? fuel cs).map fun (ms, rest) => (.table (Keyed.ofList ms), rest)
    | c :: cs =>
      if c = '"' ∨ c = '\x27' then
        (string? c none cs).map fun (text, rest) => (.text (String.ofList text), rest)
      else
        let word := (c :: cs).takeWhile fun c => c.isAlphanum || c = '+' || c = '-' || c = '.'
        (word? word).map fun s => (s, (c :: cs).drop word.length)

/-- The items of an array up to its end, and what follows. -/
def items? : Nat → List Char → Option (List Setting × List Char)
  | 0, _ => none
  | fuel + 1, cs =>
    match skip fuel cs with
    | ']' :: rest => some ([], rest)
    | cs => do
      let (item, rest) ← value? fuel cs
      match skip fuel rest with
      | ',' :: rest =>
        let (items, rest) ← items? fuel rest
        return (item :: items, rest)
      | ']' :: rest => return ([item], rest)
      | _ => none

/-- The members of an object up to its end, and what follows. -/
def members? : Nat → List Char → Option (Layer × List Char)
  | 0, _ => none
  | fuel + 1, cs =>
    match skip fuel cs with
    | '\x7d' :: rest => some ([], rest)
    | cs => do
      let (name, rest) ← name? cs
      match skip fuel rest with
      | ':' :: rest =>
        let (item, rest) ← value? fuel (skip fuel rest)
        match skip fuel rest with
        | ',' :: rest =>
          let (ms, rest) ← members? fuel rest
          return ((name, item) :: ms, rest)
        | '\x7d' :: rest => return ([(name, item)], rest)
        | _ => none
      | _ => none

end

/-- Reads a document.  Every call consumes a character or is followed by one that does. -/
def read? (text : String) : Option Layer :=
  let fuel := 2 * text.length + 2
  match value? fuel (skip fuel text.toList) with
  | some (.table ms, rest) => if (skip fuel rest).isEmpty then some ms else none
  | _ => none

end Sieve.Json5
