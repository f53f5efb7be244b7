import Sieve.Settings.Numeral

/-!
# Lines and text in YAML

Where a line begins tells what a thing belongs to, so what is still to be read is a `Spot`: a column and
the text from there on.

* `toContent` passes over blank lines and comments, `after?` over what may follow a thing in its line;
* `fold` joins the lines of a text: one end of line is a blank, and of more the first does not count;
* `quoted?`, `literal?`: texts after an opening quote, before they are folded;
* `plain`: a text without quotes, and `textBlock?` one that stands in lines of its own.
-/

namespace Sieve.Yaml

/-! ### Lines -/

/-- What is still to be read, with the column where it begins. -/
structure Spot where
  column : Nat
  rest : List Char

/-- A blank within a line. -/
def isBlank (c : Char) : Bool := c = ' ' || c = '\t'

/-- A blank or an end of line. -/
def isSpace (c : Char) : Bool := isBlank c || c = '\n'

/-- Whether a blank or an end of line stands next, or nothing. -/
def isGap (cs : List Char) : Bool := cs.head?.all isSpace

/-- Passes over blank lines and comments.  There is no column within a comment. -/
def toContent : Option Nat → List Char → Spot
  | _, '\n' :: cs => toContent (some 0) cs
  | none, _ :: cs => toContent none cs
  | some n, ' ' :: cs => toContent (some (n + 1)) cs
  | some _, '#' :: cs => toContent none cs
  | some n, cs => ⟨n, cs⟩
  | none, [] => ⟨0, []⟩

/-- The end of a line, if nothing but blanks and a comment stand before it. -/
def endLine? (cs : List Char) : Option (List Char) :=
  match cs.dropWhile isBlank with
  | [] => some []
  | '\n' :: rest => some ('\n' :: rest)
  | '#' :: rest => if isGap cs then some (rest.dropWhile (· ≠ '\n')) else none
  | _ => none

/-- What follows in the lines after this one, if it is at its end. -/
def after? (cs : List Char) : Option Spot := (endLine? cs).map (toContent none)

/-- Passes over blanks, comments and ends of lines, given whether a comment goes on. -/
def skip : Bool → List Char → List Char
  | _, '\n' :: cs => skip false cs
  | true, _ :: cs => skip true cs
  | false, c :: cs => if isBlank c then skip false cs else if c = '#' then skip true cs else c :: cs
  | _, [] => []

/-- The lines of a text. -/
def splitLines : List Char → List (List Char)
  | [] => [[]]
  | c :: cs =>
    match splitLines cs with
    | [] => [[c]]
    | line :: lines => if c = '\n' then [] :: line :: lines else (c :: line) :: lines

/-- The text of lines. -/
def joinLines (lines : List (List Char)) : List Char := List.intercalate ['\n'] lines

/-- A text without the blanks at its end. -/
def trimEnd (cs : List Char) : List Char := (cs.reverse.dropWhile isBlank).reverse

/-! ### Folding -/

/-- What stands between two words, given the blanks and the ends of lines between them. -/
def between (blanks : List Char) : Nat → List Char
  | 0 => blanks
  | 1 => [' ']
  | n + 2 => List.replicate (n + 1) '\n'

/-- Joins the lines of a text, given the blanks and the ends of lines before it.  A character may be told
to count as itself. -/
def fold : List Char → Nat → List (Char × Bool) → List Char
  | blanks, ends, [] => between blanks ends
  | blanks, ends, (c, counts) :: cs =>
    if counts ∨ ¬ isSpace c then between blanks ends ++ c :: fold [] 0 cs
    else if c = '\n' then fold [] (ends + 1) cs
    else fold (if ends = 0 then blanks ++ [c] else []) ends cs

/-! ### Quotes -/

/-- The character that a letter after a backslash stands for. -/
def escaped? (c : Char) : Option Char :=
  match c with
  | '0' => some '\x00'
  | 'a' => some '\x07'
  | 'b' => some '\x08'
  | 't' => some '\t'
  | '\t' => some '\t'
  | 'n' => some '\n'
  | 'v' => some '\x0b'
  | 'f' => some '\x0c'
  | 'r' => some '\r'
  | 'e' => some '\x1b'
  | ' ' => some ' '
  | '"' => some '"'
  | '/' => some '/'
  | '\\' => some '\\'
  | 'N' => some '\u0085'
  | '_' => some '\u00a0'
  | 'L' => some '\u2028'
  | 'P' => some '\u2029'
  | _ => none

/-- Puts a character in front of a text that has been read. -/
def withChar (c : Char) (counts : Bool) (read : List (Char × Bool) × List Char) :
    List (Char × Bool) × List Char :=
  ((c, counts) :: read.1, read.2)

/-- The rest of a text in double quotes, given whether it goes on after a backslash at the end of a
line. -/
def quoted? : Bool → List Char → Option (List (Char × Bool) × List Char)
  | _, [] => none
  | _, '"' :: rest => some ([], rest)
  | _, '\\' :: '\n' :: rest => quoted? true rest
  | _, '\\' :: 'x' :: a :: b :: rest => do
    let x ← Numeral.coded? [a, b]
    return withChar x true (← quoted? false rest)
  | _, '\\' :: 'u' :: a :: b :: c :: d :: rest => do
    let x ← Numeral.coded? [a, b, c, d]
    return withChar x true (← quoted? false rest)
  | _, '\\' :: 'U' :: a :: b :: c :: d :: e :: f :: g :: h :: rest => do
    let x ← Numeral.coded? [a, b, c, d, e, f, g, h]
    return withChar x true (← quoted? false rest)
  | _, '\\' :: c :: rest => do
    let x ← escaped? c
    return withChar x true (← quoted? false rest)
  | joins, c :: rest =>
    if c = '\\' then none
    else if joins && isSpace c then quoted? true rest
    else (quoted? false rest).map (withChar c false)

/-- The rest of a text in single quotes. -/
def literal? : List Char → Option (List (Char × Bool) × List Char)
  | [] => none
  | '\x27' :: '\x27' :: rest => (literal? rest).map (withChar '\x27' true)
  | c :: rest =>
    if c = '\x27' then some ([], rest) else (literal? rest).map (withChar c false)

/-- A text in quotes. -/
def string? (cs : List Char) : Option (List Char × List Char) :=
  let folded := Option.map fun read => (fold [] 0 read.1, read.2)
  match cs with
  | '"' :: cs => folded (quoted? false cs)
  | '\x27' :: cs => folded (literal? cs)
  | _ => none

/-! ### Texts without quotes -/

/-- A sign of a list or a mapping within a line. -/
def isFlowSign (c : Char) : Bool := [',', '[', ']', '\x7b', '\x7d'].contains c

/-- A sign that begins something else than a word. -/
def isSign (c : Char) : Bool :=
  isFlowSign c || ['#', '&', '*', '!', '|', '>', '\x27', '"', '%', '@', '\x60'].contains c

/-- Whether a word begins, within a line or not. -/
def startsWord (flow : Bool) : List Char → Bool
  | [] => false
  | c :: cs =>
    if ['-', '?', ':'].contains c then !(isGap cs || flow && cs.head?.any isFlowSign)
    else !(isSign c || isSpace c)

/-- The words up to the end of a line, given whether a blank stands before.  A comment ends them, and so
does a colon with a gap behind it. -/
def wordsOf (flow : Bool) : Bool → List Char → List Char
  | _, [] => []
  | spaced, c :: cs =>
    if c = '\n' ∨ c = '#' ∧ spaced ∨ flow ∧ isFlowSign c ∨
        c = ':' ∧ (isGap cs ∨ flow ∧ cs.head?.any isFlowSign) then []
    else c :: wordsOf flow (isBlank c) cs

/-- A text without quotes, which may go on in lines that begin at a column or behind it. -/
def plain : Nat → Bool → Nat → List Char → List Char × List Char
  | 0, _, _, cs => ([], cs)
  | fuel + 1, flow, least, cs =>
    let words := trimEnd (wordsOf flow false cs)
    let rest := cs.drop words.length
    let gap := rest.takeWhile isSpace
    let onward := rest.drop gap.length
    let column := (gap.reverse.takeWhile (· = ' ')).length
    if words.isEmpty ∨ ¬ gap.contains '\n' ∨ column < least ∨ onward.head? = some '#' then (words, rest)
    else
      let (more, last) := plain fuel flow least onward
      if more.isEmpty then (words, rest) else (words ++ gap ++ more, last)

/-! ### Texts in lines of their own -/

/-- What becomes of the ends of lines at the end of a text: one stays, none, or all. -/
inductive Ending
  | one
  | none
  | all
  deriving DecidableEq, Repr

/-- The signs after the one that begins the text: how far it is indented, and its ending. -/
def header? : Option Nat → Ending → List Char → Option (Option Nat × Ending)
  | indent, ending, [] => some (indent, ending)
  | indent, ending, c :: cs =>
    if c = '-' ∧ ending = .one then header? indent .none cs
    else if c = '+' ∧ ending = .one then header? indent .all cs
    else if indent.isNone ∧ c.isDigit ∧ c ≠ '0' then header? (some (c.toNat - 48)) ending cs
    else none

/-- Joins lines: one end of line is a blank, and of more the first does not count, but all count beside a
line that is indented further.  What is told is whether the line before is one, and how many empty lines
follow it. -/
def foldLines : Option Bool → Nat → List (List Char) → List Char
  | _, _, [] => []
  | before, empty, line :: lines =>
    if line.isEmpty then foldLines before (empty + 1) lines
    else
      let deep := line.head?.any isBlank
      let gap := match before with
        | none => List.replicate empty '\n'
        | some d =>
          if d || deep then List.replicate (empty + 1) '\n' else between [] (empty + 1)
      gap ++ line ++ foldLines (some deep) 0 lines

/-- A text in lines of its own that are indented at least so far, after the sign that begins it. -/
def textBlock? (folded : Bool) (least : Nat) (cs : List Char) : Option (List Char × Spot) := do
  let signs := cs.takeWhile fun c => !isSpace c
  let (indent, ending) ← header? none .one signs
  let body ← endLine? (cs.drop signs.length)
  let lines := splitLines (body.drop 1)
  let column (line : List Char) : Nat := (line.takeWhile (· = ' ')).length
  let isEmpty (line : List Char) : Bool := line.all (· = ' ')
  let found := ((lines.find? fun line => !isEmpty line).map column).getD 0
  let indent := match indent with
    | some n => least - 1 + n
    | none => max found (max least 1)
  let own := lines.takeWhile fun line => isEmpty line || indent ≤ column line
  let others := lines.drop own.length
  let own := if others.isEmpty ∧ own.getLast? = some [] then own.dropLast else own
  let own := own.map (·.drop indent)
  let written := (own.reverse.dropWhile List.isEmpty).reverse
  let text := if folded then foldLines none 0 written else joinLines written
  let ends := match ending with
    | .none => 0
    | .one => min written.length 1
    | .all => own.length - written.length + min written.length 1
  return (text ++ List.replicate ends '\n', toContent (some 0) (joinLines others))

end Sieve.Yaml
