import Sieve.Text.CaseTable

/-!
# Lower case

Every character has a lower-case form of its own, one character long except for `İ`, which becomes
an `i` and a dot above.  Only `Σ` depends on its place: at the end of a word it becomes `ς`, and
elsewhere `σ`.  It stands at the end of a word if a letter with case is before it and none is after
it, marks and apostrophes in between not counting.

* `lowerChar`: the form of a character other than `Σ`;
* `endsWord`: the rule for `Σ`;
* `lowercase`: the form of a text;
* `occursIn`: whether a text stands somewhere in another.
-/

namespace Sieve.Text

/-- A character in one of the given ranges. -/
def inRanges (ranges : List (Nat × Nat)) (c : Char) : Bool :=
  ranges.any fun (lo, hi) => lo ≤ c.toNat && c.toNat ≤ hi

/-- A letter with case. -/
def isCased (c : Char) : Bool := inRanges casedRanges c

/-- A character that is passed over when the end of a word is looked for. -/
def isIgnorable (c : Char) : Bool := inRanges ignorableRanges c

/-- The lower-case form of a character other than `Σ`. -/
def lowerChar (c : Char) : List Char :=
  if c.toNat < 128 then [c.toLower]
  else if c = '\u0130' then ['i', '\u0307']
  else
    let n := c.toNat
    match lowerRanges.find? fun (lo, hi, step, _) => lo ≤ n && n ≤ hi && (n - lo) % step == 0 with
    | some (_, _, _, shift) => [Char.ofNat ((n : Int) + shift).toNat]
    | none => [c]

/-- A letter with case is the first character that is not passed over. -/
def meetsCased (cs : List Char) : Bool :=
  match cs.dropWhile isIgnorable with
  | [] => false
  | c :: _ => isCased c

/-- Whether a `Σ` between two texts ends a word; the text before it is given backwards. -/
def endsWord (before after : List Char) : Bool := meetsCased before && !meetsCased after

/-- The lower-case form of a text that follows another, given backwards. -/
def lowercaseAfter (before : List Char) : List Char → List Char
  | [] => []
  | c :: cs =>
    (if c = 'Σ' then [if endsWord before cs then 'ς' else 'σ'] else lowerChar c) ++
      lowercaseAfter (c :: before) cs

/-- The lower-case form of a text. -/
def lowercase (cs : List Char) : List Char := lowercaseAfter [] cs

/-- Whether a text stands somewhere in another. -/
def occursIn (needle : List Char) : List Char → Bool
  | [] => needle.isEmpty
  | c :: cs => needle.isPrefixOf (c :: cs) || occursIn needle cs

end Sieve.Text
