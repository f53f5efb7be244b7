import Sieve.Calendar
import Sieve.Settings.Layer

/-!
# RON

A reader of settings files in RON.  Lists stand in square brackets, maps in braces, and structures in
parentheses, with a name in front or without.

* A structure with names for its members is a table, and one without is a list;
* `Some(x)` is `x`; `None`, `()` and a name that stands alone say nothing;
* `word?`: a number, in base ten, sixteen, eight or two, with underscores between its digits;
* `Ron.read?`: a document, which has to be a map or a structure with names.
-/

namespace Sieve.Ron

/-! ### Blanks -/

/-- What follows a comment in stars, given how many of them are open. -/
def afterComment? : Nat → List Char → Option (List Char)
  | _, [] => none
  | depth, '/' :: '*' :: rest => afterComment? (depth + 1) rest
  | depth, '*' :: '/' :: rest => if depth ≤ 1 then some rest else afterComment? (depth - 1) rest
  | depth, _ :: rest => afterComment? depth rest

/-- Passes over blanks and comments. -/
def skip : Nat → List Char → List Char
  | 0, cs => cs
  | fuel + 1, cs =>
    match cs.dropWhile Instant.isSpace with
    | '/' :: '/' :: rest => skip fuel (rest.dropWhile (· ≠ '\n'))
    | '/' :: '*' :: rest => ((afterComment? 1 rest).map (skip fuel)).getD ('/' :: '*' :: rest)
    | rest => rest

/-! ### Texts -/

/-- The character that a letter after a backslash stands for. -/
def escaped? (c : Char) : Option Char :=
  match c with
  | 'n' => some '\n'
  | 'r' => some '\r'
  | 't' => some '\t'
  | '0' => some '\x00'
  | '"' => some '"'
  | '\\' => some '\\'
  | '\x27' => some '\x27'
  | _ => none

/-- The character with the code in braces at the start of a text, and what follows the braces. -/
def braced? (cs : List Char) : Option (Char × List Char) := do
  let ds := cs.takeWhile (· ≠ '\x7d')
  if ds.isEmpty ∨ 6 < ds.length then none
  else return (← Numeral.coded? ds, (← (cs.drop ds.length).tail?))

/-- The character at the start of a text, an escape resolved, and what follows. -/
def char? : List Char → Option (Char × List Char)
  | '\\' :: 'x' :: a :: b :: rest => (Numeral.coded? [a, b]).map fun x => (x, rest)
  | '\\' :: 'u' :: '\x7b' :: rest => braced? rest
  | '\\' :: c :: rest => (escaped? c).map fun x => (x, rest)
  | '\\' :: [] => none
  | c :: rest => some (c, rest)
  | [] => none

/-- A string after its opening quote. -/
def string? : Nat → List Char → Option (List Char × List Char)
  | 0, _ => none
  | fuel + 1, cs =>
    match cs with
    | '"' :: rest => some ([], rest)
    | cs => do
      let (c, rest) ← char? cs
      let (text, rest) ← string? fuel rest
      return (c :: text, rest)

/-- A string without escapes, up to a quote with so many signs after it. -/
def raw? (signs : Nat) : List Char → Option (List Char × List Char)
  | [] => none
  | c :: cs =>
    if c = '"' ∧ (List.replicate signs '#').isPrefixOf cs then some ([], cs.drop signs)
    else (raw? signs cs).map fun (text, rest) => (c :: text, rest)

/-- A text in quotes, and what follows. -/
def text? (fuel : Nat) : List Char → Option (List Char × List Char)
  | '"' :: cs => string? fuel cs
  | 'r' :: cs => do
    let signs := (cs.takeWhile (· = '#')).length
    match cs.drop signs with
    | '"' :: cs => raw? signs cs
    | _ => none
  | '\x27' :: cs => do
    let (c, rest) ← char? cs
    match rest with
    | '\x27' :: rest => return ([c], rest)
    | _ => none
  | _ => none

/-! ### Words -/

/-- A character of a name. -/
def isInName (c : Char) : Bool := c.isAlphanum || c = '_'

/-- The name at the start of a text, and what follows. -/
def name? (cs : List Char) : Option (String × List Char) :=
  let name := cs.takeWhile isInName
  if name.isEmpty ∨ name.head?.any Char.isDigit then none
  else some (String.ofList name, cs.drop name.length)

/-- A number. -/
def word? (cs : List Char) : Option Setting :=
  let (negative, ds) := Numeral.unsign (cs.filter (· ≠ '_'))
  let based (base : Nat) (ds : List Char) : Option Setting :=
    (Numeral.ofDigits? base negative ds).map .int
  match ds with
  | ['i', 'n', 'f'] => some (.real (.infinity negative))
  | ['N', 'a', 'N'] => some (.real .undefined)
  | '0' :: 'x' :: ds => based 16 ds
  | '0' :: 'o' :: ds => based 8 ds
  | '0' :: 'b' :: ds => based 2 ds
  | ds =>
    if Numeral.isDigits ds then based 10 ds
    else (Numeral.decimal? negative ds).map .real

/-- What a name that stands alone says. -/
def ofName (name : String) : Setting :=
  match name with
  | "true" => .truth true
  | "false" => .truth false
  | "inf" => .real (.infinity false)
  | "NaN" => .real .undefined
  | _ => .null

/-! ### Values -/

mutual

/-- A value, and what follows. -/
def value? : Nat → List Char → Option (Setting × List Char)
  | 0, _ => none
  | fuel + 1, cs =>
    match cs with
    | '[' :: cs => (items? fuel ']' cs).map fun (items, rest) => (.list items, rest)
    | '\x7b' :: cs => (members? fuel '\x7d' cs).map fun (ms, rest) => (.table (Keyed.ofList ms), rest)
    | '(' :: cs => group? fuel cs
    | cs =>
      match text? fuel cs with
      | some (text, rest) => some (.text (String.ofList text), rest)
      | none =>
        match name? cs with
        | some (name, rest) =>
          match skip fuel rest with
          | '(' :: inside =>
            if name = "Some" then
              match items? fuel ')' inside with
              | some ([item], rest) => some (item, rest)
              | _ => none
            else group? fuel inside
          | _ => some (ofName name, rest)
        | none =>
          let word := cs.takeWhile fun c => isInName c || c = '+' || c = '-' || c = '.'
          (word? word).map fun s => (s, cs.drop word.length)

/-- A structure after its opening parenthesis, and what follows. -/
def group? : Nat → List Char → Option (Setting × List Char)
  | 0, _ => none
  | fuel + 1, cs =>
    let cs := skip fuel cs
    match cs with
    | ')' :: rest => some (.null, rest)
    | cs =>
      if (name? cs).any fun (_, rest) => (skip fuel rest).head? = some ':' then
        (members? fuel ')' cs).map fun (ms, rest) => (.table (Keyed.ofList ms), rest)
      else (items? fuel ')' cs).map fun (items, rest) => (.list items, rest)

/-- The items up to a closing sign, and what follows. -/
def items? : Nat → Char → List Char → Option (List Setting × List Char)
  | 0, _, _ => none
  | fuel + 1, closing, cs =>
    let cs := skip fuel cs
    if cs.head? = some closing then some ([], cs.drop 1)
    else do
      let (item, rest) ← value? fuel cs
      match skip fuel rest with
      | ',' :: rest =>
        let (items, rest) ← items? fuel closing rest
        return (item :: items, rest)
      | c :: rest => if c = closing then return ([item], rest) else none
      | [] => none

/-- The members up to a closing sign, and what follows.  Members of a map have texts for names. -/
def members? : Nat → Char → List Char → Option (Layer × List Char)
  | 0, _, _ => none
  | fuel + 1, closing, cs =>
    let cs := skip fuel cs
    if cs.head? = some closing then some ([], cs.drop 1)
    else do
      let (name, rest) ← if closing = ')' then name? cs else
        (text? fuel cs).map fun (text, rest) => (String.ofList text, rest)
      match skip fuel rest with
      | ':' :: rest =>
        let (item, rest) ← value? fuel (skip fuel rest)
        match skip fuel rest with
        | ',' :: rest =>
          let (ms, rest) ← members? fuel closing rest
          return ((name, item) :: ms, rest)
        | c :: rest => if c = closing then return ([(name, item)], rest) else none
        | [] => none
      | _ => none

end

/-- Reads a document.  Every call consumes a character or is followed by one that does. -/
def read? (text : String) : Option Layer :=
  let fuel := 3 * text.length + 3
  match value? fuel (skip fuel text.toList) with
  | some (.table ms, rest) => if (skip fuel rest).isEmpty then some ms else none
  | _ => none

end Sieve.Ron
