import Sieve.Json.Path
import Sieve.Settings.Numeral

/-!
# Addresses of settings

A name in a layer of settings says where the setting goes: `a.b[0].c` is the member `c` of the first
item of the list `b` in the table `a`.  The names between the dots are plain, and an index counts from
the end of the list if it is negative.

* `Step`: a step to a member or to an item;
* `Step.address`: the steps that a name stands for.  A name that is not of this form stands for a
  member of that very name.
-/

namespace Sieve

/-- A step on the way to a setting: to a member of a table, or to an item of a list. -/
inductive Step
  | member (name : String)
  | item (index : Int)
  deriving DecidableEq, Repr

namespace Step

/-- A character of a plain name. -/
def isPlain (c : Char) : Bool := c.isAlphanum || c = '_' || c = '-'

/-- A blank beside an index. -/
def isBlank (c : Char) : Bool := c = ' ' || c = '\t'

/-- A text without the blanks around it. -/
def trim (cs : List Char) : List Char :=
  ((cs.dropWhile isBlank).reverse.dropWhile isBlank).reverse

/-- The step that stands after an opening bracket: an index of 64 bits and a closing bracket. -/
def ofSubscript? (cs : List Char) : Option Step :=
  if cs.getLast? = some ']' then
    match trim cs.dropLast with
    | '+' :: _ => none
    | digits => (Numeral.int? digits).map .item
  else none

/-- The steps of the part of a name between two dots: a plain name and any number of indices. -/
def ofPart? (part : List Char) : Option (List Step) :=
  match Path.parts '[' part with
  | [] => none
  | name :: subscripts =>
    if name.isEmpty ∨ ¬ name.all isPlain then none
    else (subscripts.mapM ofSubscript?).map (.member (String.ofList name) :: ·)

/-- The steps that a name stands for. -/
def address (name : String) : List Step :=
  match (Path.parts '.' name.toList).mapM ofPart? with
  | some steps => steps.flatten
  | none => [.member name]

end Step

end Sieve
