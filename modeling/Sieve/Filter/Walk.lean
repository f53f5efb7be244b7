import Sieve.Filter.Tree

/-!
# Walking a tree

A walk meets a node before its children, and the children from left to right.  Where several nodes
have one id, the first in the walk is the one that counts.

* `walk`: the nodes of a tree, each with its subtree; `rules`, `groups` and `nodeCount` are read off
  it;
* `find?`: the first node with an id, found without walking further;
* `modifyGroup?` and `modifyRule?`: the tree with the first group or rule of an id changed;
* `remove?`: the first node with an id and an accepted kind, taken out together with its subtree.
  The root cannot be taken out.
-/

namespace Sieve

variable {ι : Type}

namespace Node

mutual

/-- A node and everything below it. -/
def walk : Node ι → List (Node ι)
  | rule r => [rule r]
  | group i c cs => group i c cs :: walkAll cs

/-- Everything in a row of nodes. -/
def walkAll : List (Node ι) → List (Node ι)
  | [] => []
  | n :: ns => walk n ++ walkAll ns

end

@[simp] theorem walkAll_eq_flatMap (ns : List (Node ι)) : walkAll ns = ns.flatMap walk := by
  induction ns with
  | nil => rfl
  | cons n ns ih => rw [walkAll, ih, List.flatMap_cons]

mutual

/-- The first node with an id. -/
def find? (id : String) : Node String → Option (Node String)
  | rule r => if r.id = id then some (rule r) else none
  | group i c cs => if i = id then some (group i c cs) else findAll? id cs

/-- The first node with an id in a row of nodes. -/
def findAll? (id : String) : List (Node String) → Option (Node String)
  | [] => none
  | n :: ns => match find? id n with
    | some m => some m
    | none => findAll? id ns

end

mutual

/-- Changes the first group with an id. -/
def modifyGroup? (id : String) (f : Group String → Group String) :
    Node String → Option (Node String)
  | rule _ => none
  | group i c cs =>
    if i = id then some (f ⟨i, c, cs⟩).toNode else (modifyGroupAll? id f cs).map (group i c)

/-- Changes the first group with an id in a row of nodes. -/
def modifyGroupAll? (id : String) (f : Group String → Group String) :
    List (Node String) → Option (List (Node String))
  | [] => none
  | n :: ns => match modifyGroup? id f n with
    | some m => some (m :: ns)
    | none => (modifyGroupAll? id f ns).map (n :: ·)

end

mutual

/-- Changes the first rule with an id. -/
def modifyRule? (id : String) (f : Rule String → Rule String) :
    Node String → Option (Node String)
  | rule r => if r.id = id then some (rule (f r)) else none
  | group i c cs => (modifyRuleAll? id f cs).map (group i c)

/-- Changes the first rule with an id in a row of nodes. -/
def modifyRuleAll? (id : String) (f : Rule String → Rule String) :
    List (Node String) → Option (List (Node String))
  | [] => none
  | n :: ns => match modifyRule? id f n with
    | some m => some (m :: ns)
    | none => (modifyRuleAll? id f ns).map (n :: ·)

end

/-- Whether a node is of an accepted kind, any kind if none is given. -/
def isOf (kind : Option Kind) (n : Node ι) : Bool := kind.all (· = n.kind)

mutual

/-- Takes a node out from below another. -/
def removeBelow? (id : String) (kind : Option Kind) :
    Node String → Option (Node String × Node String)
  | rule _ => none
  | group i c cs => (removeFrom? id kind cs).map fun (m, cs) => (m, group i c cs)

/-- Takes a node out of a row of nodes or from below one of them. -/
def removeFrom? (id : String) (kind : Option Kind) :
    List (Node String) → Option (Node String × List (Node String))
  | [] => none
  | n :: ns =>
    if n.id = id ∧ n.isOf kind then some (n, ns)
    else match removeBelow? id kind n with
      | some (m, n) => some (m, n :: ns)
      | none => (removeFrom? id kind ns).map fun (m, ns) => (m, n :: ns)

end

end Node

namespace Group

/-- The root and everything below it. -/
def walk (g : Group ι) : List (Node ι) := g.toNode :: Node.walkAll g.children

/-- The rules of a tree. -/
def rules (g : Group ι) : List (Rule ι) := g.walk.filterMap Node.asRule?

/-- The groups of a tree, the root included. -/
def groups (g : Group ι) : List (Group ι) := g.walk.filterMap Node.asGroup?

/-- The number of nodes. -/
def nodeCount (g : Group ι) : Nat := g.walk.length

/-- The first node with an id. -/
def find? (id : String) (g : Tree) : Option (Node String) :=
  if g.id = id then some g.toNode else Node.findAll? id g.children

/-- The first node with an id if it is a group. -/
def findGroup? (id : String) (g : Tree) : Option Tree := (g.find? id).bind Node.asGroup?

/-- The first node with an id if it is a rule. -/
def findRule? (id : String) (g : Tree) : Option (Rule String) := (g.find? id).bind Node.asRule?

/-- Whether a node has an id. -/
def contains (id : String) (g : Tree) : Bool := (g.find? id).isSome

/-- Changes the first group with an id. -/
def modifyGroup? (id : String) (f : Tree → Tree) (g : Tree) : Option Tree :=
  if g.id = id then some (f g)
  else (Node.modifyGroupAll? id f g.children).map fun cs => { g with children := cs }

/-- Changes the first rule with an id. -/
def modifyRule? (id : String) (f : Rule String → Rule String) (g : Tree) : Option Tree :=
  (Node.modifyRuleAll? id f g.children).map fun cs => { g with children := cs }

/-- Takes out the first node with an id and an accepted kind. -/
def remove? (id : String) (kind : Option Kind) (g : Tree) : Option (Node String × Tree) :=
  (Node.removeFrom? id kind g.children).map fun (m, cs) => (m, { g with children := cs })

end Group

end Sieve
