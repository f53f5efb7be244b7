import Sieve.Settings.Toml.Scalar
import Sieve.Settings.Toml.Table

/-!
# TOML

The reader of settings files, in version 1.1 of the format.

* `value?` reads strings, words, arrays and inline tables.  Arrays and inline tables go over lines, may
  have a comma after the last item, and nest `maxNesting` levels deep.  No name has more parts;
* `statements?` reads the statements of a text, one to a line;
* `Toml.read?` reads a document: its statements, collected in a table.  A mark of byte order may
  stand before it.
-/

namespace Sieve.Toml

/-- Arrays and inline tables may nest this many levels, and a name may have this many parts. -/
def maxNesting : Nat := 80

mutual

/-- A value in which so many more levels fit, and what follows. -/
def value? : Nat → Nat → List Char → Option (Setting × List Char)
  | 0, _, _ => none
  | fuel + 1, room, cs =>
    match room, cs with
    | _, '"' :: _ => (string? cs).map fun (text, rest) => (.text (String.ofList text), rest)
    | _, '\x27' :: _ => (string? cs).map fun (text, rest) => (.text (String.ofList text), rest)
    | 0, '[' :: _ => none
    | 0, '\x7b' :: _ => none
    | room + 1, '[' :: cs => (items? fuel room cs).map fun (items, rest) => (.list items, rest)
    | room + 1, '\x7b' :: cs => do
      let (statements, rest) ← pairs? fuel room cs
      return (.table (← collect? statements), rest)
    | _, cs =>
      let (word, rest) := takeWord cs
      (word? word).map fun s => (s, rest)

/-- The items of an array up to its end, and what follows. -/
def items? : Nat → Nat → List Char → Option (List Setting × List Char)
  | 0, _, _ => none
  | fuel + 1, room, cs =>
    match skipLines fuel cs with
    | ']' :: rest => some ([], rest)
    | cs => do
      let (item, rest) ← value? fuel room cs
      match skipLines fuel rest with
      | ',' :: rest =>
        let (items, rest) ← items? fuel room rest
        return (item :: items, rest)
      | ']' :: rest => return ([item], rest)
      | _ => none

/-- The settings of an inline table up to its end, and what follows. -/
def pairs? : Nat → Nat → List Char → Option (List Statement × List Char)
  | 0, _, _ => none
  | fuel + 1, room, cs =>
    match skipLines fuel cs with
    | '\x7d' :: rest => some ([], rest)
    | cs => do
      let (s, rest) ← pair? fuel room (skipLines fuel) cs
      match skipLines fuel rest with
      | ',' :: rest =>
        let (ss, rest) ← pairs? fuel room rest
        return (s :: ss, rest)
      | '\x7d' :: rest => return ([s], rest)
      | _ => none

/-- A name with its value, and what follows; `gap` passes over what may stand around the sign
between both. -/
def pair? : Nat → Nat → (List Char → List Char) → List Char → Option (Statement × List Char)
  | 0, _, _, _ => none
  | fuel + 1, room, gap, cs => do
    let (path, rest) ← path? maxNesting cs
    match gap rest with
    | '=' :: rest =>
      let (s, rest) ← value? fuel room (gap rest)
      return (.sets path s, rest)
    | _ => none

end

/-- A line that says something, and what follows it. -/
def statement? (fuel : Nat) : List Char → Option (Statement × List Char)
  | '[' :: '[' :: cs => do
    match ← path? maxNesting cs with
    | (path, ']' :: ']' :: rest) => return (.appends path, ← endLine? rest)
    | _ => none
  | '[' :: cs => do
    match ← path? maxNesting cs with
    | (path, ']' :: rest) => return (.opens path, ← endLine? rest)
    | _ => none
  | cs => do
    let (s, rest) ← pair? fuel maxNesting skipSpace cs
    return (s, ← endLine? rest)

/-- The statements of a document. -/
def statements? : Nat → List Char → Option (List Statement)
  | 0, _ => none
  | fuel + 1, cs =>
    match skipLines (fuel + 1) cs with
    | [] => some []
    | cs => do
      let (s, rest) ← statement? fuel cs
      return s :: (← statements? fuel rest)

/-- A text without the mark of byte order that may stand before it. -/
def withoutMark : List Char → List Char
  | '\ufeff' :: cs => cs
  | cs => cs

/-- Reads a document.  Every call consumes a character or is followed by one that does, so three
times the length is enough fuel. -/
def read? (text : String) : Option Layer :=
  let cs := withoutMark text.toList
  (statements? (3 * cs.length + 3) cs).bind collect?

end Sieve.Toml
