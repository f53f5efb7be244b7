import Sieve.Filter.Condition
import Sieve.Filter.Tree
import Sieve.Json.Path

/-!
# Evaluation

An evaluator decides whether an item passes a filter tree.

* A rule looks at one field of the item, through the extractor registered for the field or else
  along its path.  A rule with the value null asks only whether the field is there: `eq` holds if it
  is absent or null, every other operator if it is neither.  Otherwise the operator registered under
  the name decides, or else the built-in one of that name.
* A group without children holds.  The children of an `and` are evaluated up to the first that
  fails, those of an `or` up to the first that holds.
* A handler that fails, an operator that nobody knows and a combinator other than `and` and `or`
  are anomalies; the rule or group does not hold, and evaluation goes on.

`Verdict.events` lists the calls of registered handlers and the anomalies, in their order.
-/

namespace Sieve

/-- A registered operator: it decides on the value of a field and the value of a rule, or fails. -/
abbrev OperatorHandler := Option Json → Json → Option Bool

/-- A registered extractor: it takes the value of a field out of an item. -/
abbrev Extractor := Json → Option Json

/-- What may go wrong in an evaluation. -/
inductive Anomaly
  | unknownOperator
  | unknownCombinator
  | operatorFailed
  deriving DecidableEq, Repr

/-- The name under which an anomaly is counted. -/
def Anomaly.name : Anomaly → String
  | unknownOperator => "unknown_operator"
  | unknownCombinator => "unknown_combinator"
  | operatorFailed => "operator_failed"

/-- What happens in an evaluation besides its outcome. -/
inductive Event
  | operated (operator : String) (field : Option Json) (value : Json)
  | extracted (field : String)
  | anomaly (a : Anomaly)

/-- The outcome of an evaluation and what happened on the way. -/
structure Verdict where
  holds : Bool
  events : List Event

/-- The registered handlers, by name. -/
structure Evaluator where
  operator? : String → Option OperatorHandler := fun _ => none
  extractor? : String → Option Extractor := fun _ => none

namespace Evaluator

/-- Registers an operator, in place of any other of its name. -/
def withOperator (e : Evaluator) (name : String) (h : OperatorHandler) : Evaluator :=
  { e with operator? := fun n => if n = name then some h else e.operator? n }

/-- Registers an extractor, in place of any other for its field. -/
def withExtractor (e : Evaluator) (field : String) (x : Extractor) : Evaluator :=
  { e with extractor? := fun f => if f = field then some x else e.extractor? f }

variable {ι : Type}

/-- The value of a field of an item, and the call of an extractor if there is one. -/
def fieldOf (e : Evaluator) (item : Json) (field : String) : Option Json × List Event :=
  match e.extractor? field with
  | some x => (x item, [.extracted field])
  | none => (item.at? field, [])

/-- Whether the value of a field is absent or null. -/
def isAbsent : Option Json → Bool
  | none => true
  | some .null => true
  | some _ => false

/-- What an operator says of a field and a value that is not null. -/
def operate (e : Evaluator) (op : String) (field : Option Json) (value : Json) : Verdict :=
  match e.operator? op with
  | some h =>
    match h field value with
    | some b => ⟨b, [.operated op field value]⟩
    | none => ⟨false, [.operated op field value, .anomaly .operatorFailed]⟩
  | none =>
    match Operator.ofName? op with
    | some o => ⟨o.holds field value, []⟩
    | none => ⟨false, [.anomaly .unknownOperator]⟩

/-- Whether an item passes a rule. -/
def rule (e : Evaluator) (item : Json) (r : Rule ι) : Verdict :=
  let (field, events) := e.fieldOf item r.field
  match r.value with
  | .null => ⟨if r.op = Operator.equal.name then isAbsent field else !isAbsent field, events⟩
  | value =>
    let v := e.operate r.op field value
    ⟨v.holds, events ++ v.events⟩

mutual

/-- Whether an item passes a node. -/
def node (e : Evaluator) (item : Json) : Node ι → Verdict
  | .rule r => e.rule item r
  | .group _ _ [] => ⟨true, []⟩
  | .group _ .and (n :: ns) => all e item (n :: ns)
  | .group _ .or (n :: ns) => any e item (n :: ns)
  | .group _ (.other _ _) (_ :: _) => ⟨false, [.anomaly .unknownCombinator]⟩

/-- Whether an item passes every node of a row, up to the first that it does not. -/
def all (e : Evaluator) (item : Json) : List (Node ι) → Verdict
  | [] => ⟨true, []⟩
  | n :: ns =>
    let v := node e item n
    if v.holds then
      let w := all e item ns
      ⟨w.holds, v.events ++ w.events⟩
    else v

/-- Whether an item passes some node of a row, up to the first that it does. -/
def any (e : Evaluator) (item : Json) : List (Node ι) → Verdict
  | [] => ⟨false, []⟩
  | n :: ns =>
    let v := node e item n
    if v.holds then v
    else
      let w := any e item ns
      ⟨w.holds, v.events ++ w.events⟩

end

/-- Whether an item passes a tree. -/
def tree (e : Evaluator) (item : Json) (g : Group ι) : Verdict := e.node item g.toNode

/-- The items that pass a tree, in their order. -/
def filter (e : Evaluator) (items : List Json) (g : Group ι) : List Json :=
  items.filter fun item => (e.tree item g).holds

/-- What happens when the items are filtered. -/
def filterEvents (e : Evaluator) (items : List Json) (g : Group ι) : List Event :=
  items.flatMap fun item => (e.tree item g).events

/-- The number of items that pass a tree. -/
def count (e : Evaluator) (items : List Json) (g : Group ι) : Nat :=
  items.countP fun item => (e.tree item g).holds

end Evaluator

end Sieve
