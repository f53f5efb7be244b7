import Sieve.Json.Basic

/-!
# JSON text

A value is written in one of two layouts, compact or indented by two blanks a level; an empty array
or object stays on one line in both.  In strings a quote, a backslash and the characters below
U+0020 are escaped, each in its shortest form, and all else stands for itself.
-/

namespace Sieve.Json

/-- What stands where a layout may break a line, by depth, and after the name of a member. -/
structure Layout where
  lineBreak : Nat → List Char
  colon : List Char

/-- Everything on one line without blanks. -/
def Layout.compact : Layout := ⟨fun _ => [], [':']⟩

/-- One item or member a line, indented by two blanks a level. -/
def Layout.indented : Layout := ⟨fun n => '\n' :: List.replicate (2 * n) ' ', [':', ' ']⟩

/-- A hexadecimal digit, in lower case. -/
def hexDigit (n : Nat) : Char := Nat.digitChar n

/-- How a character is written in a string. -/
def escaped (c : Char) : List Char :=
  if c = '"' then ['\\', '"']
  else if c = '\\' then ['\\', '\\']
  else if c = '\n' then ['\\', 'n']
  else if c = '\r' then ['\\', 'r']
  else if c = '\t' then ['\\', 't']
  else if c = '\x08' then ['\\', 'b']
  else if c = '\x0c' then ['\\', 'f']
  else if c.toNat < 32 then ['\\', 'u', '0', '0', hexDigit (c.toNat / 16), hexDigit (c.toNat % 16)]
  else [c]

/-- A string in quotes. -/
def quoted (s : String) : List Char := '"' :: s.toList.flatMap escaped ++ ['"']

mutual

/-- The characters of a value that stands at depth `n`. -/
def chars (l : Layout) (n : Nat) : Json → List Char
  | null => ['n', 'u', 'l', 'l']
  | bool true => ['t', 'r', 'u', 'e']
  | bool false => ['f', 'a', 'l', 's', 'e']
  | num x => x.text
  | str s => quoted s
  | arr [] => ['[', ']']
  | arr (x :: xs) =>
    '[' :: l.lineBreak (n + 1) ++ chars l (n + 1) x ++ itemChars l (n + 1) xs ++
      l.lineBreak n ++ [']']
  | obj [] => ['\x7b', '\x7d']
  | obj ((k, x) :: xs) =>
    '\x7b' :: l.lineBreak (n + 1) ++ quoted k ++ l.colon ++ chars l (n + 1) x ++
      memberChars l (n + 1) xs ++ l.lineBreak n ++ ['\x7d']

/-- The characters of the further items of an array. -/
def itemChars (l : Layout) (n : Nat) : List Json → List Char
  | [] => []
  | x :: xs => ',' :: l.lineBreak n ++ chars l n x ++ itemChars l n xs

/-- The characters of the further members of an object. -/
def memberChars (l : Layout) (n : Nat) : List (String × Json) → List Char
  | [] => []
  | (k, x) :: xs =>
    ',' :: l.lineBreak n ++ quoted k ++ l.colon ++ chars l n x ++ memberChars l n xs

end

/-- The text of a value in a layout. -/
def render (l : Layout) (j : Json) : String := String.ofList (chars l 0 j)

/-- The text of a value on one line. -/
def compact (j : Json) : String := render .compact j

/-- The text of a value, indented. -/
def indented (j : Json) : String := render .indented j

end Sieve.Json
