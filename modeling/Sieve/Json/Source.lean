import Sieve.Json.Basic

/-!
# JSON text as it stands

A `Source` holds what stands in a JSON text, in its order and with repeated names, up to the first
place that the grammar refuses.  Nothing is refused here: a decoder that walks a source in its order
meets each defect where it stands, so the first defect in the text is the one it reports, be it of
the grammar or of the decoded shape.

* A place may be refused by a reader and passed over by one that skips the value: a number beyond
  the range, half of a surrogate pair.  Such values are held as `none`.
* A place refused by the grammar has a `Break`, which says what a reader and what a skipper reports.
* `Source.ofText` scans a text, `Source.ofJson` gives a value as a source without any defect.
-/

namespace Sieve

/-- What is wrong with a text: it breaks the grammar, or it ends too early. -/
inductive Defect
  | malformed
  | truncated
  deriving DecidableEq, Repr

/-- A place where the grammar breaks: the defect for one who reads and for one who skips. -/
structure Break where
  read : Defect
  skip : Defect
  deriving DecidableEq, Repr

/-- The same defect for both. -/
def Break.both (d : Defect) : Break := ⟨d, d⟩

/-- How an array or object ends: well, or where the grammar breaks, right after a comma or not. -/
inductive Ending
  | closed
  | broken (afterComma : Bool) (b : Break)
  deriving DecidableEq, Repr

/-- What stands in a JSON text. -/
inductive Source
  | null
  | bool (b : Bool)
  | number (n : Option Number)
  | string (s : Option String)
  | array (items : List Source) (ending : Ending)
  | object (members : List (Option String × Source)) (ending : Ending)
  | broken (b : Break)

/-- A whole text: its value, and whether anything but blanks follows. -/
structure Document where
  value : Source
  trailing : Bool

namespace Source

mutual

/-- A value as a source. -/
def ofJson : Json → Source
  | .null => null
  | .bool b => bool b
  | .num n => number (some n)
  | .str s => string (some s)
  | .arr xs => array (ofItems xs) .closed
  | .obj ms => object (ofMembers ms) .closed

/-- The items of an array as sources. -/
def ofItems : List Json → List Source
  | [] => []
  | x :: xs => ofJson x :: ofItems xs

/-- The members of an object as sources. -/
def ofMembers : List (String × Json) → List (Option String × Source)
  | [] => []
  | (k, x) :: xs => (some k, ofJson x) :: ofMembers xs

end

/-! ### Blanks, numbers and strings -/

/-- The characters between tokens. -/
def isBlank (c : Char) : Bool := c = ' ' || c = '\n' || c = '\t' || c = '\r'

/-- A text without its leading blanks. -/
def skipBlanks (cs : List Char) : List Char := cs.dropWhile isBlank

/-- The break of a number where a digit is missing before `cs`. -/
def missingDigit : List Char → Break
  | [] => ⟨.truncated, .malformed⟩
  | _ => .both .malformed

/-- The digits before the point, without a superfluous zero. -/
def scanWhole : List Char → Except Break (List Char × List Char)
  | '0' :: cs => if (cs.head?.map Char.isDigit).getD false then .error (.both .malformed)
    else .ok (['0'], cs)
  | cs => match cs.span Char.isDigit with
    | ([], rest) => .error (missingDigit rest)
    | (ds, rest) => .ok (ds, rest)

/-- The digits after the point. -/
def scanFraction : List Char → Except Break (Option (List Char) × List Char)
  | '.' :: cs => match cs.span Char.isDigit with
    | ([], rest) => .error (missingDigit rest)
    | (ds, rest) => .ok (some ds, rest)
  | cs => .ok (none, cs)

/-- The exponent, with whether it is negative. -/
def scanExponent : List Char → Except Break (Option (Bool × List Char) × List Char)
  | 'e' :: cs => digits cs
  | 'E' :: cs => digits cs
  | cs => .ok (none, cs)
where
  /-- The sign and the digits of an exponent. -/
  digits (cs : List Char) : Except Break (Option (Bool × List Char) × List Char) :=
    let (down, cs) := match cs with
      | '+' :: cs => (false, cs)
      | '-' :: cs => (true, cs)
      | cs => (false, cs)
    match cs.span Char.isDigit with
    | ([], rest) => .error (missingDigit rest)
    | (ds, rest) => .ok (some (down, ds), rest)

/-- A number and what follows it. -/
def scanNumber (cs : List Char) : Except Break (Literal × List Char) := do
  let (negative, cs) := match cs with
    | '-' :: cs => (true, cs)
    | cs => (false, cs)
  let (whole, cs) ← scanWhole cs
  let (fraction, cs) ← scanFraction cs
  let (exponent, cs) ← scanExponent cs
  return (⟨negative, whole, fraction, exponent⟩, cs)

/-- The value of a hexadecimal digit. -/
def hexValue? (c : Char) : Option Nat :=
  if c.isDigit then some (c.toNat - '0'.toNat)
  else if 'a' ≤ c ∧ c ≤ 'f' then some (c.toNat - 'a'.toNat + 10)
  else if 'A' ≤ c ∧ c ≤ 'F' then some (c.toNat - 'A'.toNat + 10)
  else none

/-- The value of four hexadecimal digits. -/
def hexUnit? (a b c d : Char) : Option Nat := do
  return ((← hexValue? a) * 16 + (← hexValue? b)) * 256 + ((← hexValue? c) * 16 + (← hexValue? d))

/-- The defect where four hexadecimal digits are missing before `cs`: less than four bytes are left,
or some of them are no such digits. -/
def missingHex (cs : List Char) : Defect :=
  if (String.ofList cs).utf8ByteSize < 4 then .truncated else .malformed

/-- The character that a letter after a backslash stands for. -/
def unescape? (c : Char) : Option Char :=
  match c with
  | '"' => some '"'
  | '\\' => some '\\'
  | '/' => some '/'
  | 'b' => some '\x08'
  | 'f' => some '\x0c'
  | 'n' => some '\n'
  | 'r' => some '\r'
  | 't' => some '\t'
  | _ => none

/-- A string up to its closing quote: its text, `none` if half a surrogate pair stands in it. -/
inductive StringScan
  | closed (text : Option (List Char)) (rest : List Char)
  | broken (b : Break)

/-- Puts a character in front. -/
def StringScan.cons (c : Char) : StringScan → StringScan
  | .closed text rest => .closed (text.map (c :: ·)) rest
  | .broken b => .broken b

/-- Marks the string as unreadable from its start. -/
def StringScan.spoil : StringScan → StringScan
  | .closed _ rest => .closed none rest
  | .broken b => .broken ⟨.malformed, b.skip⟩

/-- A code unit of a surrogate pair: its first half, its second half, or neither. -/
inductive Unit16
  | high
  | low
  | whole

/-- The kind of a code unit. -/
def Unit16.of (n : Nat) : Unit16 :=
  if 0xD800 ≤ n ∧ n ≤ 0xDBFF then high else if 0xDC00 ≤ n ∧ n ≤ 0xDFFF then low else whole

/-- The character of a surrogate pair. -/
def pairChar (high low : Nat) : Char := Char.ofNat (0x10000 + (high - 0xD800) * 0x400 + (low - 0xDC00))

/-- Spoils a string in which a first half is not followed by a second. -/
def settle (pending : Option Nat) (s : StringScan) : StringScan :=
  if pending.isSome then s.spoil else s

/-- A string after its opening quote, or after a first half of a surrogate pair. -/
def scanString : Option Nat → List Char → StringScan
  | _, [] => .broken (.both .truncated)
  | _, ['\\'] => .broken (.both .truncated)
  | pending, '"' :: rest => settle pending (.closed (some []) rest)
  | pending, '\\' :: 'u' :: a :: b :: c :: d :: rest =>
    match hexUnit? a b c d with
    | none => .broken (.both (missingHex (a :: b :: c :: d :: rest)))
    | some m =>
      match pending, Unit16.of m with
      | some n, .low => (scanString none rest).cons (pairChar n m)
      | some _, .high => (scanString (some m) rest).spoil
      | some _, .whole => (scanString none rest).spoil
      | none, .low => (scanString none rest).spoil
      | none, .high => scanString (some m) rest
      | none, .whole => (scanString none rest).cons (Char.ofNat m)
  | _, '\\' :: 'u' :: few => .broken (.both (missingHex few))
  | pending, '\\' :: c :: rest =>
    match unescape? c with
    | none => .broken (.both .malformed)
    | some x => settle pending ((scanString none rest).cons x)
  | pending, c :: rest =>
    if c.toNat < 32 then .broken (.both .malformed)
    else settle pending ((scanString none rest).cons c)

/-! ### Values -/

/-- The rest of a word after its first letter: what follows it, or the defect. -/
def scanWord : List Char → List Char → Except Defect (List Char)
  | [], rest => .ok rest
  | _ :: _, [] => .error .truncated
  | w :: ws, c :: cs => if w = c then scanWord ws cs else .error .malformed

/-- A word with its value. -/
def scanConstant (word : List Char) (value : Source) (cs : List Char) :
    Source × Option (List Char) :=
  match scanWord word cs with
  | .ok rest => (value, some rest)
  | .error d => (broken (.both d), none)

mutual

/-- The value at the start of a text without leading blanks, and what follows it unless the
grammar broke inside. -/
def scanValue : Nat → List Char → Source × Option (List Char)
  | 0, _ => (broken (.both .truncated), none)
  | _ + 1, [] => (broken (.both .truncated), none)
  | fuel + 1, c :: cs =>
    if c = '"' then
      match scanString none cs with
      | .closed text rest => (string (text.map String.ofList), some rest)
      | .broken b => (broken b, none)
    else if c = '[' then
      match skipBlanks cs with
      | [] => (array [] (.broken false (.both .truncated)), none)
      | ']' :: rest => (array [] .closed, some rest)
      | cs =>
        let (items, ending, rest) := scanItems fuel cs
        (array items ending, rest)
    else if c = '\x7b' then
      match skipBlanks cs with
      | [] => (object [] (.broken false (.both .truncated)), none)
      | '\x7d' :: rest => (object [] .closed, some rest)
      | cs =>
        let (members, ending, rest) := scanMembers fuel false cs
        (object members ending, rest)
    else if c = 'n' then scanConstant ['u', 'l', 'l'] null cs
    else if c = 't' then scanConstant ['r', 'u', 'e'] (bool true) cs
    else if c = 'f' then scanConstant ['a', 'l', 's', 'e'] (bool false) cs
    else if c = '-' ∨ c.isDigit then
      match scanNumber (c :: cs) with
      | .ok (l, rest) => (number l.read, some rest)
      | .error b => (broken b, none)
    else (broken (.both .malformed), none)

/-- The items of an array from the start of one of them, how the array ends and what follows. -/
def scanItems : Nat → List Char → List Source × Ending × Option (List Char)
  | 0, _ => ([], .broken false (.both .truncated), none)
  | fuel + 1, cs =>
    match scanValue fuel cs with
    | (item, none) => ([item], .closed, none)
    | (item, some rest) =>
      match skipBlanks rest with
      | [] => ([item], .broken false (.both .truncated), none)
      | ']' :: rest => ([item], .closed, some rest)
      | ',' :: rest =>
        match skipBlanks rest with
        | [] => ([item], .broken true (.both .truncated), none)
        | ']' :: _ => ([item], .broken true (.both .malformed), none)
        | rest =>
          let (items, ending, rest) := scanItems fuel rest
          (item :: items, ending, rest)
      | _ => ([item], .broken false (.both .malformed), none)

/-- The members of an object from where a name is expected, how the object ends and what follows. -/
def scanMembers : Nat → Bool → List Char →
    List (Option String × Source) × Ending × Option (List Char)
  | 0, afterComma, _ => ([], .broken afterComma (.both .truncated), none)
  | fuel + 1, afterComma, '"' :: cs =>
    match scanString none cs with
    | .broken b => ([], .broken afterComma b, none)
    | .closed text rest =>
      let name := text.map String.ofList
      match skipBlanks rest with
      | [] => ([(name, broken (.both .truncated))], .closed, none)
      | ':' :: rest =>
        match scanValue fuel (skipBlanks rest) with
        | (value, none) => ([(name, value)], .closed, none)
        | (value, some rest) =>
          match skipBlanks rest with
          | [] => ([(name, value)], .broken false (.both .truncated), none)
          | '\x7d' :: rest => ([(name, value)], .closed, some rest)
          | ',' :: rest =>
            match skipBlanks rest with
            | [] => ([(name, value)], .broken true (.both .truncated), none)
            | '\x7d' :: _ => ([(name, value)], .broken true (.both .malformed), none)
            | rest =>
              let (members, ending, rest) := scanMembers fuel true rest
              ((name, value) :: members, ending, rest)
          | _ => ([(name, value)], .broken false (.both .malformed), none)
      | _ => ([(name, broken (.both .malformed))], .closed, none)
  | _ + 1, afterComma, _ => ([], .broken afterComma (.both .malformed), none)

end

/-- Scans a text.  Every call consumes a character or is followed by one that does, so twice the
length is enough fuel. -/
def ofChars (cs : List Char) : Document :=
  let cs := skipBlanks cs
  match scanValue (2 * cs.length + 2) cs with
  | (value, none) => ⟨value, false⟩
  | (value, some rest) => ⟨value, !(skipBlanks rest).isEmpty⟩

/-- Scans a text. -/
def ofText (text : String) : Document := ofChars text.toList

end Source

end Sieve
