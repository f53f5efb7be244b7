import Sieve.Json.Number
import Sieve.Keyed

/-!
# JSON values

* `Json`: values, with the members of an object in the order in which they are written;
* `Json.beq`: structural equality, where integers and binary64 numbers differ and binary64 numbers
  are compared by value;
* `Json.sorted`: the same value with the members of every object in increasing order of names, a
  repeated name keeping its last value;
* `Json.depth`: how deep arrays and objects are nested, an empty one counting as well.
-/

namespace Sieve

/-- A JSON value. -/
inductive Json
  | null
  | bool (b : Bool)
  | num (n : Number)
  | str (s : String)
  | arr (items : List Json)
  | obj (members : List (String × Json))

namespace Json

instance : Inhabited Json := ⟨null⟩

/-- An integer as a value. -/
def int (i : Int) : Json := num (.ofInt i)

/-- A count as a value. -/
def nat (n : Nat) : Json := int n

/-- A list of strings as a value. -/
def strings (ss : List String) : Json := arr (ss.map str)

mutual

/-- Structural equality. -/
def beq : Json → Json → Bool
  | null, null => true
  | bool a, bool b => a == b
  | num m, num n => m == n
  | str s, str t => s == t
  | arr xs, arr ys => beqItems xs ys
  | obj xs, obj ys => beqMembers xs ys
  | _, _ => false

/-- Equality item by item. -/
def beqItems : List Json → List Json → Bool
  | [], [] => true
  | x :: xs, y :: ys => beq x y && beqItems xs ys
  | _, _ => false

/-- Equality member by member. -/
def beqMembers : List (String × Json) → List (String × Json) → Bool
  | [], [] => true
  | (k, x) :: xs, (l, y) :: ys => k == l && beq x y && beqMembers xs ys
  | _, _ => false

end

instance : BEq Json := ⟨beq⟩

mutual

/-- The value with all members in increasing order of names. -/
def sorted : Json → Json
  | arr xs => arr (sortedItems xs)
  | obj xs => obj (Keyed.ofList (sortedMembers xs))
  | j => j

/-- Each item with its members in order. -/
def sortedItems : List Json → List Json
  | [] => []
  | x :: xs => sorted x :: sortedItems xs

/-- Each member's value with its members in order. -/
def sortedMembers : List (String × Json) → List (String × Json)
  | [] => []
  | (k, x) :: xs => (k, sorted x) :: sortedMembers xs

end

mutual

/-- The nesting of arrays and objects. -/
def depth : Json → Nat
  | arr xs => depthItems xs + 1
  | obj xs => depthMembers xs + 1
  | _ => 0

/-- The greatest depth of an item. -/
def depthItems : List Json → Nat
  | [] => 0
  | x :: xs => max (depth x) (depthItems xs)

/-- The greatest depth of a member. -/
def depthMembers : List (String × Json) → Nat
  | [] => 0
  | (_, x) :: xs => max (depth x) (depthMembers xs)

end

/-- The string that a value is. -/
def asString? : Json → Option String
  | str s => some s
  | _ => none

/-- The items of an array. -/
def asArray? : Json → Option (List Json)
  | arr xs => some xs
  | _ => none

/-- The value of a member of an object. -/
def member? (name : String) : Json → Option Json
  | obj ms => Keyed.lookup name ms
  | _ => none

end Json

end Sieve
