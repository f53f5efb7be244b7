import Sieve.Filter.Evaluation

/-!
# Ready-made handlers

Operators and extractors to register with an evaluator, chosen by name or by a small description.

* `Stock.operator`: `startsWith`, `eq_ci`, `between`, `always`, `never` and `absent`; an operator of
  any other name always fails;
* `Stock.extractor`: a constant, a path, the length of a list, or the item itself.
-/

namespace Sieve

/-- The greatest finite number. -/
def Binary64.greatest (negative : Bool) : Binary64 :=
  ⟨negative, (2 ^ 53 - 1) * 2 ^ 2045, by decide +kernel, by decide +kernel⟩

namespace Stock

/-- The number that a value is. -/
def number? : Json → Option Binary64
  | .num n => some n.toBinary64
  | _ => none

/-- A number between two bounds; a bound that is no number does not bound. -/
def between (x : Binary64) (lo hi : Json) : Bool :=
  let lo := (number? lo).getD (.greatest true)
  let hi := (number? hi).getD (.greatest false)
  (compare lo x).isLE && (compare x hi).isLE

/-- Equality of texts, the case of ASCII letters aside. -/
def sameLetters (s t : String) : Bool :=
  s.toList.map Char.toLower == t.toList.map Char.toLower

/-- The operator of a name. -/
def operator (name : String) : OperatorHandler := fun field value =>
  if name = "startsWith" then
    match field, value with
    | some (.str s), .str t => some (t.toList.isPrefixOf s.toList)
    | _, _ => some false
  else if name = "eq_ci" then
    match field, value with
    | some (.str s), .str t => some (sameLetters s t)
    | _, _ => some false
  else if name = "between" then
    match field.bind number?, value with
    | some x, .arr [lo, hi] => some (between x lo hi)
    | _, _ => none
  else if name = "always" then some true
  else if name = "never" then some false
  else if name = "absent" then some field.isNone
  else none

/-- The extractor of a description. -/
def extractor (description : Json) : Extractor := fun item =>
  match description with
  | .str "self" => some item
  | .obj [("const", x)] => some x
  | .obj [("path", .str p)] => item.at? p
  | .obj [("len_of", .str k)] =>
    match item.member? k with
    | some (.arr xs) => some (.nat xs.length)
    | _ => none
  | _ => none

end Stock

end Sieve
