import Sieve.Filter.Draft
import Sieve.Filter.Walk

/-!
# Configured fields

A configuration lists the fields that may be filtered by and says which operators go with them.

* `FilterConfig.allowedOperators`: those of the field itself, or else those of the table for its
  component, or else the built-in ones of the component;
* `FilterConfig.defaultOperator`: the one of the field itself, or else the first of the table, or
  else the first built-in one, or else `eq`;
* `FilterConfig.initialTree`: an `and` group with one rule for each field;
* `FilterConfig.issues`: the rules of a tree that name no configured field, or an operator that their
  field does not allow.  Of several fields of one name the first counts.
-/

namespace Sieve

/-- A choice that an editor offers. -/
structure FieldOption where
  label : String
  value : Json

/-- A field that may be filtered by. -/
structure FieldConfig where
  field : String
  label : String
  component : String
  operators : Option (List String) := none
  options : Option (List FieldOption) := none
  defaultOperator : Option String := none
  extra : Option (List (String × Json)) := none

/-- The configured fields, and operators by component. -/
structure FilterConfig where
  fields : List FieldConfig := []
  operators : Option (List (String × List String)) := none

/-- What is wrong with a rule. -/
inductive Issue
  | unknownField (rule field : String)
  | operatorNotAllowed (rule field op : String)
  deriving DecidableEq, Repr

/-- The wording of an issue. -/
def Issue.message : Issue → String
  | unknownField r f => "规则 " ++ r ++ " 引用了未配置的字段 " ++ f
  | operatorNotAllowed r f op => "规则 " ++ r ++ " 的字段 " ++ f ++ " 不允许操作符 " ++ op

namespace FilterConfig

/-- Sets the operators of a component. -/
def withOperators (c : FilterConfig) (component : String) (ops : List String) : FilterConfig :=
  { c with operators := some (Keyed.insert component ops (c.operators.getD [])) }

/-- The first field of a name. -/
def field? (c : FilterConfig) (name : String) : Option FieldConfig :=
  c.fields.find? (·.field = name)

/-- The operators that the table has for a component. -/
def tableFor (c : FilterConfig) (component : String) : Option (List String) :=
  c.operators.bind (Keyed.lookup component)

/-- The built-in operators of a component, by name. -/
def builtIn (component : String) : List String := (Component.operators component).map Operator.name

/-- The operator of a new rule on a field. -/
def defaultOperator (c : FilterConfig) (f : FieldConfig) : String :=
  match f.defaultOperator with
  | some op => op
  | none =>
    match (c.tableFor f.component).bind List.head? with
    | some op => op
    | none => (builtIn f.component).head?.getD Operator.equal.name

/-- The operators that a rule on a field may have. -/
def allowedOperators (c : FilterConfig) (f : FieldConfig) : List String :=
  match f.operators with
  | some ops => ops
  | none => (c.tableFor f.component).getD (builtIn f.component)

/-- A new rule on a field. -/
def defaultRule (c : FilterConfig) (f : FieldConfig) : Rule Unit :=
  { Rule.draft f.field (c.defaultOperator f) f.component with extra := f.extra }

/-- An `and` group with a new rule on each field. -/
def initialDraft (c : FilterConfig) : Group Unit :=
  { Group.draft .and with children := c.fields.map fun f => .rule (c.defaultRule f) }

/-- The same with ids. -/
def initialTree (c : FilterConfig) : StateM IdSupply Tree := c.initialDraft.assign

/-- What is wrong with a rule, if anything. -/
def issue? (c : FilterConfig) (r : Rule String) : Option Issue :=
  match c.field? r.field with
  | none => some (.unknownField r.id r.field)
  | some f =>
    if (c.allowedOperators f).contains r.op then none
    else some (.operatorNotAllowed r.id r.field r.op)

/-- What is wrong with the rules of a tree. -/
def issues (c : FilterConfig) (g : Tree) : List Issue := g.rules.filterMap c.issue?

end FilterConfig

end Sieve
