import Sieve.Calendar
import Sieve.Settings.Layer

/-!
# INI

A reader of settings files of named sections.  `[name]` begins a section, and what stands before the
first of them belongs to none; `key = value` and `key : value` set a text.

* A value goes to the end of its line, without the blanks around it, and may begin with text in quotes;
* a backslash begins an escape, in names, keys and values alike;
* a comment is a line that begins with `;` or `#`;
* a section that is begun again replaces the one before, and so does a key in a section.

`Ini.read?` reads a document, a section becoming a table.
-/

namespace Sieve.Ini

/-- What a document says, one after another. -/
inductive Entry
  | section (name : String)
  | value (key text : String)
  deriving DecidableEq, Repr

/-! ### Text -/

/-- A text without the white space at its end. -/
def trimEnd (cs : List Char) : List Char := (cs.reverse.dropWhile Instant.isSpace).reverse

/-- A text without the white space around it. -/
def trim (cs : List Char) : List Char := trimEnd (cs.dropWhile Instant.isSpace)

/-- An end of line. -/
def isNewline (c : Char) : Bool := c = '\n' || c = '\r'

/-- The character that a letter after a backslash stands for. -/
def escaped (c : Char) : Char :=
  match c with
  | '0' => '\x00'
  | 'a' => '\x07'
  | 'b' => '\x08'
  | 't' => '\t'
  | 'r' => '\r'
  | 'n' => '\n'
  | c => c

/-- The character with a hexadecimal code, which may have a plus in front. -/
def coded? : List Char → Option Char
  | '+' :: ds => Numeral.coded? ds
  | ds => Numeral.coded? ds

/-- The text up to a character, escapes resolved, and what follows from that character on.  Whether the
end of the file will do instead is told. -/
def upTo? (isEnd : Char → Bool) (mayEnd : Bool) : List Char → Option (List Char × List Char)
  | [] => if mayEnd then some ([], []) else none
  | '\\' :: 'x' :: a :: b :: c :: d :: rest => do
    let x ← coded? [a, b, c, d]
    let (text, rest) ← upTo? isEnd mayEnd rest
    return (x :: text, rest)
  | '\\' :: 'x' :: _ => none
  | '\\' :: '\n' :: rest => upTo? isEnd mayEnd rest
  | '\\' :: c :: rest => (upTo? isEnd mayEnd rest).map fun (text, rest) => (escaped c :: text, rest)
  | c :: rest =>
    if isEnd c then some ([], c :: rest)
    else if c = '\\' then none
    else (upTo? isEnd mayEnd rest).map fun (text, rest) => (c :: text, rest)

/-! ### Entries -/

/-- Passes over white space, and says whether a line begins there. -/
def skipSpace : Bool → List Char → Bool × List Char
  | fresh, [] => (fresh, [])
  | fresh, c :: cs => if Instant.isSpace c then skipSpace (c = '\n') cs else (fresh, c :: cs)

/-- A value up to the end of its line.  Texts in quotes may stand at its start, and blanks count after
them. -/
def value? : Nat → Bool → List Char → Option (List Char × List Char)
  | 0, _, _ => none
  | _ + 1, _, [] => some ([], [])
  | fuel + 1, first, c :: cs =>
    if c = '"' ∨ c = '\x27' then do
      let (quoted, rest) ← upTo? (· = c) false cs
      let (text, rest) ← value? fuel false (rest.drop 1)
      return (quoted ++ text, rest)
    else do
      let (text, rest) ← upTo? isNewline true (c :: cs)
      return (if first then trim text else trimEnd text, rest)

/-- The entries of a document, given whether a line begins. -/
def entries? : Nat → Bool → List Char → Option (List Entry)
  | 0, _, _ => none
  | fuel + 1, fresh, cs =>
    match skipSpace fresh cs with
    | (_, []) => some []
    | (fresh, c :: cs) =>
      if c = ';' ∨ c = '#' then
        if fresh then entries? fuel true ((cs.dropWhile (· ≠ '\n')).drop 1) else none
      else if c = '[' then do
        let (name, rest) ← upTo? (· = ']') false cs
        return .section (String.ofList (trim name)) :: (← entries? fuel false (rest.drop 1))
      else do
        let (key, rest) ← upTo? (fun c => c = '=' || c = ':') false (c :: cs)
        let blank (c : Char) : Bool := Instant.isSpace c && !isNewline c
        let (text, rest) ← value? (fuel + 1) true ((rest.drop 1).dropWhile blank)
        if (trim key).isEmpty then none
        else return .value (String.ofList (trim key)) (String.ofList text) ::
          (← entries? fuel false rest)

/-- The settings of entries, given those read before, and the section that they stand in with its
settings. -/
def collect (done : Layer) : Option (String × Layer) → List Entry → Layer
  | none, [] => done
  | some (name, ms), [] => Keyed.insert name (.table ms) done
  | none, .value key text :: rest => collect (Keyed.insert key (.text text) done) none rest
  | some (name, ms), .value key text :: rest =>
    collect done (some (name, Keyed.insert key (.text text) ms)) rest
  | none, .section name :: rest => collect done (some (name, [])) rest
  | some (before, ms), .section name :: rest =>
    collect (Keyed.insert before (.table ms) done) (some (name, [])) rest

/-- Reads a document.  Every entry has a character of its own. -/
def read? (text : String) : Option Layer :=
  (entries? (text.length + 1) true text.toList).map (collect [] none)

end Sieve.Ini
