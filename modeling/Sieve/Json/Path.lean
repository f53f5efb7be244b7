import Sieve.Json.Basic

/-!
# Dotted paths

A path is a row of steps joined by dots.  A step into an object is the name of a member; a step
into an array is an index, decimal digits with an optional leading `+`.

* `Path.steps`: the steps of a path; an empty path is one empty step;
* `Json.step` and `Json.at?`: the value behind a step and behind a path.
-/

namespace Sieve

namespace Path

/-- The parts of a text between the places of a separator. -/
def parts (separator : Char) : List Char → List (List Char)
  | [] => [[]]
  | c :: cs =>
    if c = separator then [] :: parts separator cs
    else match parts separator cs with
      | [] => [[c]]
      | p :: ps => (c :: p) :: ps

/-- The steps of a path. -/
def steps (path : String) : List String := (parts '.' path.toList).map String.ofList

/-- The index that a step stands for: decimal digits that fit in 64 bits. -/
def index? (step : String) : Option Nat :=
  let ds := match step.toList with
    | '+' :: ds => ds
    | ds => ds
  if ds.all Char.isDigit ∧ ds ≠ [] ∧ digitsValue ds < 2 ^ 64 then some (digitsValue ds) else none

end Path

namespace Json

/-- The value behind one step. -/
def step (j : Json) (s : String) : Option Json :=
  match j with
  | obj ms => Keyed.lookup s ms
  | arr xs => (Path.index? s).bind fun i => xs[i]?
  | _ => none

/-- The value behind a path. -/
def at? (j : Json) (path : String) : Option Json := (Path.steps path).foldlM step j

end Json

end Sieve
