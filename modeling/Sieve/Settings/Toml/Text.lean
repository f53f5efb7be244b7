import Sieve.Settings.Address

/-!
# Strings and names in TOML

What stands between the values of a document, and the two kinds of strings.  In double quotes a
backslash begins an escape; in single quotes every character stands for itself.  A string between
three quotes goes over several lines: an end of line right after the opening quotes does not count, up
to two quotes may stand before the closing ones, and between double quotes a backslash at the end of a
line takes away all blanks and ends of lines that follow.

* `quoted?`, `literal?` and `literalBlock?`: strings, after their opening quotes;
* `string?`: a string as a value;
* `path?`: a dotted name, each part plain or a string on one line.

All readers give back what follows.
-/

namespace Sieve.Toml

open Numeral (coded?)

/-! ### Blanks, comments and lines -/

/-- Passes over blanks within a line. -/
def skipSpace (cs : List Char) : List Char := cs.dropWhile Step.isBlank

/-- A character that may stand in a comment. -/
def isText (c : Char) : Bool := c = '\t' || (32 ≤ c.toNat && c.toNat ≠ 127)

/-- Passes over a comment. -/
def skipComment : List Char → List Char
  | '#' :: cs => cs.dropWhile isText
  | cs => cs

/-- Passes over an end of line, if there is one. -/
def newline? : List Char → Option (List Char)
  | '\n' :: rest => some rest
  | '\r' :: '\n' :: rest => some rest
  | _ => none

/-- The end of a line, and what follows. -/
def endLine? (cs : List Char) : Option (List Char) :=
  match skipComment (skipSpace cs) with
  | [] => some []
  | cs => newline? cs

/-- Passes over blanks, comments and ends of lines. -/
def skipLines : Nat → List Char → List Char
  | 0, cs => cs
  | fuel + 1, cs =>
    let cs := skipComment (skipSpace cs)
    match newline? cs with
    | some rest => skipLines fuel rest
    | none => cs

/-! ### Escapes -/

/-- The character that a letter after a backslash stands for. -/
def escaped? (c : Char) : Option Char :=
  match c with
  | 'b' => some '\x08'
  | 't' => some '\t'
  | 'n' => some '\n'
  | 'f' => some '\x0c'
  | 'r' => some '\r'
  | 'e' => some '\x1b'
  | '"' => some '"'
  | '\\' => some '\\'
  | _ => none

/-! ### Strings -/

/-- Where a reader of a string in double quotes stands: in a string on one line, in one that goes
over several lines, or behind a backslash at the end of a line of such a string. -/
inductive Place
  | line
  | block
  | fold
  deriving DecidableEq, Repr

/-- The place after a character of the string. -/
def Place.next : Place → Place
  | line => line
  | _ => block

/-- Puts a character in front of a text that has been read. -/
def withChar (c : Char) (read : List Char × List Char) : List Char × List Char :=
  (c :: read.1, read.2)

/-- The quotes that belong to a string over several lines although three quotes stand before
them, at most two, and what follows. -/
def lastQuotes (quote : Char) (cs : List Char) : List Char × List Char :=
  let extra := (cs.take 2).takeWhile (· = quote)
  (extra, cs.drop extra.length)

/-- The rest of a string in double quotes. -/
def quoted? : Place → List Char → Option (List Char × List Char)
  | _, [] => none
  | .line, '"' :: rest => some ([], rest)
  | _, '"' :: '"' :: '"' :: rest => some (lastQuotes '"' rest)
  | p, '\\' :: 'x' :: a :: b :: rest => do
    let x ← coded? [a, b]
    return withChar x (← quoted? p.next rest)
  | p, '\\' :: 'u' :: a :: b :: c :: d :: rest => do
    let x ← coded? [a, b, c, d]
    return withChar x (← quoted? p.next rest)
  | p, '\\' :: 'U' :: a :: b :: c :: d :: e :: f :: g :: h :: rest => do
    let x ← coded? [a, b, c, d, e, f, g, h]
    return withChar x (← quoted? p.next rest)
  | p, '\\' :: c :: rest =>
    match escaped? c with
    | some x => (quoted? p.next rest).map (withChar x)
    | none =>
      if p ≠ .line ∧ (newline? (skipSpace (c :: rest))).isSome then quoted? .fold rest else none
  | p, c :: rest =>
    if p = .fold ∧ (Step.isBlank c ∨ (newline? (c :: rest)).isSome) then quoted? .fold rest
    else if p ≠ .line ∧ (newline? (c :: rest)).isSome ∨ isText c ∧ c ≠ '\\' then
      (quoted? p.next rest).map (withChar c)
    else none

/-- The rest of a string in single quotes on one line. -/
def literal? (cs : List Char) : Option (List Char × List Char) :=
  let text := cs.takeWhile fun c => isText c && c ≠ '\x27'
  match cs.drop text.length with
  | '\x27' :: rest => some (text, rest)
  | _ => none

/-- The rest of a string in single quotes over several lines. -/
def literalBlock? : List Char → Option (List Char × List Char)
  | [] => none
  | '\x27' :: '\x27' :: '\x27' :: rest => some (lastQuotes '\x27' rest)
  | c :: rest =>
    if (newline? (c :: rest)).isSome ∨ isText c then (literalBlock? rest).map (withChar c)
    else none

/-- A string as a value. -/
def string? : List Char → Option (List Char × List Char)
  | '"' :: '"' :: '"' :: cs => quoted? .block ((newline? cs).getD cs)
  | '"' :: cs => quoted? .line cs
  | '\x27' :: '\x27' :: '\x27' :: cs => literalBlock? ((newline? cs).getD cs)
  | '\x27' :: cs => literal? cs
  | _ => none

/-! ### Names -/

/-- A part of a name. -/
def name? : List Char → Option (String × List Char)
  | '"' :: cs => (quoted? .line cs).map fun (text, rest) => (String.ofList text, rest)
  | '\x27' :: cs => (literal? cs).map fun (text, rest) => (String.ofList text, rest)
  | cs =>
    let text := cs.takeWhile Step.isPlain
    if text.isEmpty then none else some (String.ofList text, cs.drop text.length)

/-- A dotted name of at most so many parts, with blanks around them. -/
def path? : Nat → List Char → Option (List String × List Char)
  | 0, _ => none
  | most + 1, cs => do
    let (name, rest) ← name? (skipSpace cs)
    match skipSpace rest with
    | '.' :: rest =>
      let (path, rest) ← path? most rest
      return (name :: path, rest)
    | rest => return ([name], rest)

end Sieve.Toml
