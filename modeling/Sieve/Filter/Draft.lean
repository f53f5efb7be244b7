import Sieve.Filter.Tree
import Sieve.Identifier

/-!
# Drafts and ids

A draft is a tree without ids.  When it enters a tree in use, every node of it is given a new id, a
node before its children and the children from left to right.

* `Node.assign`, `Group.assign`: a draft with ids from a supply; `Node.eraseIds_assign` says that
  nothing else changes;
* `Rule.draft`, `Group.draft`, `Group.push`: making drafts;
* `RulePatch`, `GroupPatch`: changes of single members of a node, which keep its id.
-/

namespace Sieve

/-- Gives a rule an id. -/
def Rule.assign (r : Rule Unit) : StateM IdSupply (Rule String) := fun s =>
  let (id, s) := IdSupply.fresh s
  (r.mapId fun _ => id, s)

mutual

/-- Gives ids to a node and to everything below it. -/
def Node.assign : Node Unit → StateM IdSupply (Node String)
  | .rule r => fun s =>
    let (r, s) := r.assign s
    (.rule r, s)
  | .group _ c cs => fun s =>
    let (id, s) := IdSupply.fresh s
    let (cs, s) := Node.assignAll cs s
    (.group id c cs, s)

/-- Gives ids to a row of nodes. -/
def Node.assignAll : List (Node Unit) → StateM IdSupply (List (Node String))
  | [] => fun s => ([], s)
  | n :: ns => fun s =>
    let (n, s) := Node.assign n s
    let (ns, s) := Node.assignAll ns s
    (n :: ns, s)

end

/-- Gives ids to a group and to everything below it. -/
def Group.assign (g : Group Unit) : StateM IdSupply Tree := fun s =>
  let (id, s) := IdSupply.fresh s
  let (cs, s) := Node.assignAll g.children s
  (⟨id, g.combinator, cs⟩, s)

mutual

theorem Node.eraseIds_assign : ∀ (n : Node Unit) (s : IdSupply), (n.assign s).1.eraseIds = n
  | .rule _, _ => rfl
  | .group _ c cs, s => congrArg (Node.group () c) (Node.eraseIds_assignAll cs (IdSupply.fresh s).2)

theorem Node.eraseIds_assignAll : ∀ (ns : List (Node Unit)) (s : IdSupply),
    Node.mapIdsAll (fun _ => ()) (Node.assignAll ns s).1 = ns
  | [], _ => rfl
  | n :: ns, s => by
    show Node.eraseIds (n.assign s).1 :: Node.mapIdsAll (fun _ => ()) (Node.assignAll ns _).1 = _
    rw [Node.eraseIds_assign n s, Node.eraseIds_assignAll ns]

end

/-! ### Making drafts -/

/-- A rule with the default value of its component. -/
def Rule.draft (field op component : String) : Rule Unit :=
  ⟨(), field, op, Component.defaultValue component, component, none⟩

/-- A group without children. -/
def Group.draft (combinator : Combinator) : Group Unit := ⟨(), combinator, []⟩

/-- A group with one more child at the end. -/
def Group.push {ι : Type} (g : Group ι) (n : Node ι) : Group ι :=
  { g with children := g.children ++ [n] }

/-! ### Patches -/

/-- Changes of single members of a rule. -/
structure RulePatch where
  field : Option String := none
  op : Option String := none
  value : Option Json := none
  component : Option String := none
  extra : Option (List (String × Json)) := none

/-- A change of the combinator of a group. -/
structure GroupPatch where
  combinator : Option Combinator := none

variable {ι : Type}

/-- A rule with the given members changed. -/
def RulePatch.apply (p : RulePatch) (r : Rule ι) : Rule ι where
  id := r.id
  field := p.field.getD r.field
  op := p.op.getD r.op
  value := p.value.getD r.value
  component := p.component.getD r.component
  extra := p.extra.or r.extra

/-- A group with its combinator changed if one is given. -/
def GroupPatch.apply (p : GroupPatch) (g : Group ι) : Group ι :=
  { g with combinator := p.combinator.getD g.combinator }

end Sieve
