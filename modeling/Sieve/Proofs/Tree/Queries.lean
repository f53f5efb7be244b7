import Mathlib.Data.List.Basic
import Sieve.Proofs.Tree.Ids

/-!
# One walk for all queries

Every question to a tree is answered by one walk, which comes to each node once, to a node before the
nodes below it and to earlier children before later ones.

* `Node.visit`: the walk as a visitor sees it who carries something along; `Node.visit_eq_foldl` says that
  he meets the nodes of `Node.walk` one after another;
* `Node.map_rule_filterMap`, `Node.map_toNode_filterMap`, `Node.length_filterMap_add`: what is read off a
  row of nodes as rules and as groups are its nodes of either kind, and there is no third one;
* `Group.queries_of_walk`: all queries together.
-/

namespace Sieve

variable {ι σ : Type}

/-! ### Visitors -/

mutual

/-- Shows a node and everything below it to a visitor who carries something along. -/
def Node.visit (see : σ → Node ι → σ) : Node ι → σ → σ
  | .rule r, s => see s (.rule r)
  | .group i c cs, s => Node.visitAll see cs (see s (.group i c cs))

/-- Shows a row of nodes to a visitor. -/
def Node.visitAll (see : σ → Node ι → σ) : List (Node ι) → σ → σ
  | [], s => s
  | n :: ns, s => Node.visitAll see ns (Node.visit see n s)

end

/-- Shows a tree to a visitor, the root first. -/
def Group.visit (see : σ → Node ι → σ) (g : Group ι) (s : σ) : σ := g.toNode.visit see s

mutual

/-- A visitor meets the nodes of the walk one after another. -/
theorem Node.visit_eq_foldl (see : σ → Node ι → σ) :
    ∀ (n : Node ι) (s : σ), n.visit see s = n.walk.foldl see s
  | .rule r, s => rfl
  | .group i c cs, s => by
    rw [visit, walk, List.foldl_cons, Node.visitAll_eq_foldl see cs]

theorem Node.visitAll_eq_foldl (see : σ → Node ι → σ) :
    ∀ (ns : List (Node ι)) (s : σ), Node.visitAll see ns s = (Node.walkAll ns).foldl see s
  | [], s => rfl
  | n :: ns, s => by
    rw [visitAll, walkAll, List.foldl_append, Node.visit_eq_foldl see n, Node.visitAll_eq_foldl see ns]

end

theorem Group.visit_eq_foldl (see : σ → Node ι → σ) (g : Group ι) (s : σ) :
    g.visit see s = g.walk.foldl see s := g.toNode.visit_eq_foldl see s

/-! ### Kinds -/

namespace Node

/-- The rules of a row of nodes are its nodes of that kind. -/
theorem map_rule_filterMap (ns : List (Node ι)) :
    (ns.filterMap asRule?).map rule = ns.filter (·.kind = .rule) := by
  induction ns with
  | nil => rfl
  | cons n ns ih =>
    cases n with
    | rule r => exact congrArg (rule r :: ·) ih
    | group i c cs => exact ih

/-- The groups of a row of nodes are its nodes of that kind. -/
theorem map_toNode_filterMap (ns : List (Node ι)) :
    (ns.filterMap asGroup?).map Group.toNode = ns.filter (·.kind = .group) := by
  induction ns with
  | nil => rfl
  | cons n ns ih =>
    cases n with
    | rule r => exact ih
    | group i c cs => exact congrArg (group i c cs :: ·) ih

/-- Every node is a rule or a group. -/
theorem length_filterMap_add (ns : List (Node ι)) :
    (ns.filterMap asRule?).length + (ns.filterMap asGroup?).length = ns.length := by
  induction ns with
  | nil => rfl
  | cons n ns ih =>
    rw [List.length_cons, ← ih]
    cases n with
    | rule r => exact Nat.add_right_comm _ 1 _
    | group i c cs => exact (Nat.add_assoc _ _ 1).symm

end Node

/-! ### Queries -/

/-- **Whatever a visitor carries along, he meets the nodes of the walk one after another: the node itself
and then the walks of its children, each node once and in the order of the ways.  An id is looked for in
this row, and contained just if a node of the row has it; the rules and the groups are those of the row in
its order, and together they are as many as it is long.** -/
theorem Group.queries_of_walk (t : Tree) :
    (∀ (σ : Type) (see : σ → Node String → σ) (s : σ), t.visit see s = t.walk.foldl see s) ∧
    (t.walk = t.toNode.walk ∧
      (∀ g : Tree, g.toNode.walk = g.toNode :: g.children.flatMap Node.walk) ∧
      ∀ r : Rule String, (Node.rule r).walk = [.rule r]) ∧
    (∃ sites : List (Site String), sites.map Site.node = t.walk ∧
      (sites.Pairwise fun s s' => s.path < s'.path) ∧
      ∀ s, s ∈ sites ↔ t.toNode.at? s.path = some s.node) ∧
    (∀ id, t.find? id = t.walk.find? (·.id = id) ∧ (t.contains id = true ↔ ∃ n ∈ t.walk, n.id = id)) ∧
    (t.rules = t.visit (fun rs n => rs ++ n.asRule?.toList) [] ∧
      t.rules.map Node.rule = t.walk.filter (·.kind = .rule)) ∧
    (t.groups = t.visit (fun gs n => gs ++ n.asGroup?.toList) [] ∧
      t.groups.map Group.toNode = t.walk.filter (·.kind = .group)) ∧
    t.nodeCount = t.visit (fun k _ => k + 1) 0 ∧ t.nodeCount = t.walk.length ∧
      t.nodeCount = t.rules.length + t.groups.length := by
  have hrules : t.visit (fun rs n => rs ++ n.asRule?.toList) [] = t.rules := by
    rw [visit_eq_foldl, ← List.flatMap_eq_foldl, ← List.filterMap_eq_flatMap_toList, rules]
  have hgroups : t.visit (fun gs n => gs ++ n.asGroup?.toList) [] = t.groups := by
    rw [visit_eq_foldl, ← List.flatMap_eq_foldl, ← List.filterMap_eq_flatMap_toList, groups]
  have hcount : t.visit (fun k _ => k + 1) 0 = t.nodeCount := by
    rw [visit_eq_foldl, List.foldl_add_const, Nat.zero_add, Nat.one_mul, nodeCount]
  refine ⟨fun σ see s => t.visit_eq_foldl see s, ⟨rfl, fun g => ?_, fun r => rfl⟩,
    ⟨t.toNode.sites, t.toNode.map_node_sites, t.toNode.pairwise_sites, fun s => Node.mem_sites_iff⟩,
    fun id => ⟨t.find?_eq_find?_walk id, ?_⟩, ⟨hrules.symm, Node.map_rule_filterMap t.walk⟩,
    ⟨hgroups.symm, Node.map_toNode_filterMap t.walk⟩, hcount.symm, rfl,
    (Node.length_filterMap_add t.walk).symm⟩
  · rw [toNode, Node.walk, Node.walkAll_eq_flatMap]
  · rw [contains_iff, ids, List.mem_map]

end Sieve
