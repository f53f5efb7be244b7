import Sieve.Calendar
import Sieve.Filter.Operator
import Sieve.Text.Casing

/-!
# Conditions

What a built-in operator says of the value of a field, which may be absent, and the value of a rule.

* `Json.equates`: numbers are equal by value, everything else by structure;
* `Json.order?`: numbers are ordered by value, strings in time if both name a point in time and by
  code point otherwise, truth values with false first; no other two values are ordered;
* `Operator.holds`: an absent field equals nothing, is in no list and is not ordered; a list
  operator whose operand is no list finds nothing in it.  `Operator.holds_notAmong` says that
  the two list operators are opposites.
-/

namespace Sieve

namespace Json

/-- Equality of values, where integers and binary64 numbers of equal value are equal. -/
def equates : Json → Json → Bool
  | num m, num n => m.toBinary64 == n.toBinary64
  | a, b => a == b

/-- The order of two values that can be compared. -/
def order? : Json → Json → Option Ordering
  | num m, num n => some (compare m.toBinary64 n.toBinary64)
  | str s, str t =>
    match Instant.ofChars? s.toList, Instant.ofChars? t.toList with
    | some a, some b => some (compare a b)
    | _, _ => some (compare s t)
  | bool a, bool b => some (compare a b)
  | _, _ => none

/-- A string contains another, letter case aside. -/
def containsText : Json → Json → Bool
  | str s, str t => Text.occursIn (Text.lowercase t.toList) (Text.lowercase s.toList)
  | _, _ => false

/-- A value is one of the items of a list. -/
def isAmong (a : Json) : Json → Bool
  | arr xs => xs.any a.equates
  | _ => false

end Json

namespace Operator

/-- A field is there and its order relative to a value is accepted. -/
def ordered (accept : Ordering → Bool) (field : Option Json) (value : Json) : Bool :=
  ((field.bind (·.order? value)).map accept).getD false

/-- A field is none of the items of a list.  Everything is outside what is no list. -/
def outside (field : Option Json) : Json → Bool
  | .arr xs =>
    match field with
    | some a => !xs.any a.equates
    | none => true
  | _ => true

/-- Whether an operator holds of a field and the value of a rule. -/
def holds (op : Operator) (field : Option Json) (value : Json) : Bool :=
  match op with
  | equal => field.any (·.equates value)
  | different => !field.any (·.equates value)
  | less => ordered Ordering.isLT field value
  | atMost => ordered Ordering.isLE field value
  | greater => ordered Ordering.isGT field value
  | atLeast => ordered Ordering.isGE field value
  | contains => field.any (·.containsText value)
  | among => field.any (·.isAmong value)
  | notAmong => outside field value

/-- The two list operators say the opposite of each other, also of an absent field and where there is no list. -/
theorem holds_notAmong (field : Option Json) (value : Json) :
    notAmong.holds field value = !among.holds field value := by
  cases field <;> cases value <;> rfl

end Operator

end Sieve
