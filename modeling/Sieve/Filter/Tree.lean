import Sieve.Filter.Operator

/-!
# Filter trees

A filter is a tree whose leaves are rules and whose inner nodes are groups.  The root is a group.

* `Rule ι`, `Node ι`, `Group ι`: trees whose nodes are marked with an `ι`.  A tree in use is marked
  with ids, a `Group String`; a draft that has no ids yet is a tree marked with `Unit`;
* `Combinator`: how a group combines its children; any name other than `and` and `or` is kept as it
  stands;
* `mapIds` changes the marks and nothing else, and `eraseIds` forgets them;
* equality of trees compares values as `Json.beq` does.
-/

namespace Sieve

/-- How a group combines its children. -/
inductive Combinator
  | and
  | or
  | other (name : String) (isOther : name ≠ "and" ∧ name ≠ "or")
  deriving DecidableEq

namespace Combinator

/-- The combinator of a name. -/
def ofName (s : String) : Combinator :=
  if ha : s = "and" then and
  else if ho : s = "or" then or
  else other s ⟨ha, ho⟩

/-- The name of a combinator. -/
def name : Combinator → String
  | and => "and"
  | or => "or"
  | other s _ => s

theorem ofName_name (c : Combinator) : ofName c.name = c := by
  cases c with
  | and => rfl
  | or => rfl
  | other s h => simp [ofName, name, h.1, h.2]

theorem name_ofName (s : String) : (ofName s).name = s := by
  unfold ofName
  split
  next h => exact h.symm
  next =>
    split
    next h => exact h.symm
    next => rfl

instance : Inhabited Combinator := ⟨and⟩

end Combinator

/-- A condition on one field. `extra` is what the editor of the rule keeps with it. -/
structure Rule (ι : Type) where
  id : ι
  field : String
  op : String
  value : Json
  component : String
  extra : Option (List (String × Json))

/-- A rule or a group with its children. -/
inductive Node (ι : Type)
  | rule (r : Rule ι)
  | group (id : ι) (combinator : Combinator) (children : List (Node ι))

/-- A group with its children. -/
structure Group (ι : Type) where
  id : ι
  combinator : Combinator
  children : List (Node ι)

/-- A filter tree in use. -/
abbrev Tree := Group String

/-- The kinds of nodes. -/
inductive Kind
  | rule
  | group
  deriving DecidableEq, Repr

variable {ι κ : Type}

/-- A group as a node. -/
def Group.toNode (g : Group ι) : Node ι := .group g.id g.combinator g.children

namespace Node

/-- The mark of a node. -/
def id : Node ι → ι
  | rule r => r.id
  | group i _ _ => i

/-- The kind of a node. -/
def kind : Node ι → Kind
  | rule _ => .rule
  | group _ _ _ => .group

/-- The rule that a node is. -/
def asRule? : Node ι → Option (Rule ι)
  | rule r => some r
  | group _ _ _ => none

/-- The group that a node is. -/
def asGroup? : Node ι → Option (Group ι)
  | rule _ => none
  | group i c cs => some ⟨i, c, cs⟩

end Node

/-- Changes the mark of a rule. -/
def Rule.mapId (f : ι → κ) (r : Rule ι) : Rule κ :=
  ⟨f r.id, r.field, r.op, r.value, r.component, r.extra⟩

mutual

/-- Changes all marks of a node. -/
def Node.mapIds (f : ι → κ) : Node ι → Node κ
  | .rule r => .rule (r.mapId f)
  | .group i c cs => .group (f i) c (Node.mapIdsAll f cs)

/-- Changes all marks of several nodes. -/
def Node.mapIdsAll (f : ι → κ) : List (Node ι) → List (Node κ)
  | [] => []
  | n :: ns => Node.mapIds f n :: Node.mapIdsAll f ns

end

@[simp] theorem Node.mapIdsAll_eq_map (f : ι → κ) (ns : List (Node ι)) :
    Node.mapIdsAll f ns = ns.map (Node.mapIds f) := by
  induction ns with
  | nil => rfl
  | cons n ns ih => rw [Node.mapIdsAll, ih, List.map_cons]

/-- Changes all marks of a group. -/
def Group.mapIds (f : ι → κ) (g : Group ι) : Group κ :=
  ⟨f g.id, g.combinator, Node.mapIdsAll f g.children⟩

/-- Forgets all marks. -/
def Node.eraseIds (n : Node ι) : Node Unit := n.mapIds fun _ => ()

@[simp] theorem Node.id_mapIds (f : ι → κ) (n : Node ι) : (n.mapIds f).id = f n.id := by
  cases n <;> rfl

@[simp] theorem Node.kind_mapIds (f : ι → κ) (n : Node ι) : (n.mapIds f).kind = n.kind := by
  cases n <;> rfl

/-! ### Equality -/

/-- Equality of what an editor keeps with a rule. -/
def Rule.sameExtra : Option (List (String × Json)) → Option (List (String × Json)) → Bool
  | none, none => true
  | some xs, some ys => Json.beqMembers xs ys
  | _, _ => false

/-- Equality of rules. -/
instance [BEq ι] : BEq (Rule ι) where
  beq r s := r.id == s.id && r.field == s.field && r.op == s.op && r.value == s.value &&
    r.component == s.component && Rule.sameExtra r.extra s.extra

mutual

/-- Equality of nodes. -/
def Node.beq [BEq ι] : Node ι → Node ι → Bool
  | .rule r, .rule s => r == s
  | .group i c cs, .group j d ds => i == j && c == d && Node.beqAll cs ds
  | _, _ => false

/-- Equality node by node. -/
def Node.beqAll [BEq ι] : List (Node ι) → List (Node ι) → Bool
  | [], [] => true
  | m :: ms, n :: ns => Node.beq m n && Node.beqAll ms ns
  | _, _ => false

end

instance [BEq ι] : BEq (Node ι) := ⟨Node.beq⟩

/-- Equality of groups. -/
instance [BEq ι] : BEq (Group ι) where
  beq g h := g.id == h.id && g.combinator == h.combinator && Node.beqAll g.children h.children

end Sieve
