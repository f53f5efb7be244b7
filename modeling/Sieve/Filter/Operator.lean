import Sieve.Decode

/-!
# Operators and components

The nine operators that every evaluator knows, and the kinds of input component that a rule may be
edited with.  An operator in a rule is an open name: `Operator.ofName?` finds the built-in operator
of that name, and any other name may be given a meaning by a configuration.
-/

namespace Sieve

/-- A built-in operator. -/
inductive Operator
  | equal
  | different
  | less
  | atMost
  | greater
  | atLeast
  | contains
  | among
  | notAmong
  deriving DecidableEq, Repr

namespace Operator

/-- All built-in operators. -/
def all : List Operator :=
  [equal, different, less, atMost, greater, atLeast, contains, among, notAmong]

/-- The name of an operator in a rule. -/
def name : Operator → String
  | equal => "eq"
  | different => "ne"
  | less => "lt"
  | atMost => "lte"
  | greater => "gt"
  | atLeast => "gte"
  | contains => "contains"
  | among => "in"
  | notAmong => "nin"

/-- The operator of a name. -/
def ofName? (s : String) : Option Operator := all.find? (·.name = s)

/-- The message about a name that is no built-in operator's. -/
def unknownMessage (s : String) : String := "unknown operator: " ++ s

/-- An operator that stands as a name of its own. -/
def readName (s : String) : Except DecodeError Operator :=
  match ofName? s with
  | some op => .ok op
  | none => .error (.unknownVariant s (all.map name))

/-- The operator of an object whose only member is its name, with null as value. -/
def readMember (o : Origin) :
    List (Option String × Source) → Ending → Except DecodeError Operator
  | [], .broken _ b => .error (.ofDefect b.read)
  | [], .closed => .error (match o with
    | .text _ => .malformed
    | _ => .invalidValue)
  | (k, s) :: more, ending => do
    match o with
    | .text _ =>
      let op ← readName (← Decode.readName k)
      match s with
      | .null =>
        match more, ending with
        | _ :: _, _ => .error .malformed
        | [], .broken true _ => .error .malformed
        | [], ending =>
          ending.close
          return op
      | s => .error (Decode.mismatch s)
    | _ =>
      if more.isEmpty then
        let op ← readName (← Decode.readName k)
        match s with
        | .null => return op
        | s => .error (Decode.mismatch s)
      else .error .invalidValue

/-- An operator, as its name or as an object with its name as only member and null as value. -/
def read : Decoder Operator
  | _, .string (some s) => readName s
  | o, .object members ending => do
    let o ← o.enter
    readMember o members ending
  | _, s => .error (Decode.mismatch s)

/-- An operator in text, where anything else than a string or an object breaks the grammar. -/
def ofText (text : String) : Except DecodeError Operator :=
  match Source.skipBlanks text.toList with
  | [] => .error .truncated
  | c :: _ => if c = '"' ∨ c = '\x7b' then Decode.ofText read text else .error .malformed

end Operator

/-! ### Components -/

namespace Component

def text : String := "text"
def number : String := "number"
def date : String := "date"
def datetime : String := "datetime"
def select : String := "select"
def multiselect : String := "multiselect"
def boolean : String := "boolean"

/-- The value of a rule that is given none: no choices for a multiple choice, else null. -/
def defaultValue (component : String) : Json :=
  if component = multiselect then .arr [] else .null

/-- The operators that a component offers, the default first. -/
def operators (component : String) : List Operator :=
  if component = text then [.equal, .contains, .different]
  else if component = number ∨ component = date ∨ component = datetime then
    [.equal, .different, .less, .greater, .atMost, .atLeast]
  else if component = select ∨ component = boolean then [.equal, .different]
  else if component = multiselect then [.among, .notAmong]
  else []

end Component

end Sieve
