import Sieve.Proofs.Tree.Outline
import Sieve.Proofs.Tree.Queries

/-!
# Where a change goes

Looking for an id stops at the first node that has it, whatever its kind.  The change of a group passes over
the rules of the id, and the change of a rule over its groups, the root among them.  Each ends at the first
node of its kind, so both end where the search ends if that is of the right kind.

* `Group.modifyGroup?_eq_none_iff`, `Group.modifyRule?_eq_none_iff`: a change fails just if there is no node
  of the kind and the id;
* `Group.firstOf?_of_replaceAt`: a node that keeps its kind and its id is still the first of them;
* `Group.lookups_agree`: where the searches end, and what a change leaves alone.
-/

namespace Sieve

namespace Group

variable {t u : Tree} {id : String} {path : List Nat} {kind : Kind}

/-! ### Nodes that are not there -/

theorem forall_groups_iff :
    (∀ g ∈ t.groups, g.id ≠ id) ↔ ∀ n ∈ t.walk, n.kind = .group → n.id ≠ id := by
  have hgroups : t.groups.map toNode = t.walk.filter (·.kind = .group) := Node.map_toNode_filterMap t.walk
  have hnodes : (∀ n ∈ t.groups.map toNode, n.id ≠ id) ↔ ∀ g ∈ t.groups, g.id ≠ id :=
    List.forall_mem_map (P := fun n : Node String => n.id ≠ id)
  rw [← hnodes, hgroups]
  simp

theorem forall_rules_iff :
    (∀ r ∈ t.rules, r.id ≠ id) ↔ ∀ n ∈ t.walk, n.kind = .rule → n.id ≠ id := by
  have hrules : t.rules.map .rule = t.walk.filter (·.kind = .rule) := Node.map_rule_filterMap t.walk
  have hnodes : (∀ n ∈ t.rules.map Node.rule, n.id ≠ id) ↔ ∀ r ∈ t.rules, r.id ≠ id :=
    List.forall_mem_map (P := fun n : Node String => n.id ≠ id)
  rw [← hnodes, hrules]
  simp

/-- The change of a group fails just if no group has the id. -/
theorem modifyGroup?_eq_none_iff (f : Tree → Tree) :
    t.modifyGroup? id f = none ↔ ∀ g ∈ t.groups, g.id ≠ id := by
  rw [forall_groups_iff, ← Option.map_eq_none_iff (f := toNode), map_toNode_modifyGroup?,
    Node.modifyFirst?_eq_none_iff]
  refine forall₂_congr fun n _ => ?_
  rw [← Option.isNone_iff_eq_none, ← Option.not_isSome, Node.isSome_onGroup, Bool.not_eq_true',
    decide_eq_false_iff_not, not_and]

/-- The change of a rule fails just if no rule has the id. -/
theorem modifyRule?_eq_none_iff (f : Rule String → Rule String) :
    t.modifyRule? id f = none ↔ ∀ r ∈ t.rules, r.id ≠ id := by
  rw [forall_rules_iff, ← Option.map_eq_none_iff (f := toNode), map_toNode_modifyRule?,
    Node.modifyFirst?_eq_none_iff]
  refine forall₂_congr fun n _ => ?_
  rw [← Option.isNone_iff_eq_none, ← Option.not_isSome, Node.isSome_onRule, Bool.not_eq_true',
    decide_eq_false_iff_not, not_and]

/-! ### Nodes that give way -/

theorem at?_of_firstOf? {s : Site String} (h : t.firstOf? kind id = some s) :
    t.toNode.at? s.path = some s.node :=
  Node.at?_of_mem_sites (List.mem_of_find?_eq_some h)

/-- Where the first node of a kind and an id gives way to another one of both, that one is now the
first. -/
theorem firstOf?_of_replaceAt {old m : Node String} (h : t.firstOf? kind id = some ⟨path, old⟩)
    (hu : u.toNode = t.toNode.replaceAt path m) (hkind : m.kind = kind) (hid : m.id = id) :
    u.firstOf? kind id = some ⟨path, m⟩ := by
  have hbare : ∀ n : Node String, n.bare.kind = n.kind := fun n => by cases n <;> rfl
  rw [firstOf?, hu]
  exact Node.find?_of_replaceAt (p := fun n => decide (n.kind = kind ∧ n.id = id))
    (fun n => by rw [Node.id_bare, hbare]) h (decide_eq_true ⟨hkind, hid⟩)

/-! ### Searches and changes -/

/-- **What the search for an id finds is the first node of its own kind and the id.  The change of a group
and the change of a rule each fail just if there is no group or no rule of the id, and else change the first
one: the tree is the same with the changed node at the end of that way, where nothing else has changed, and
a node that keeps its id is where the next change goes.** -/
theorem lookups_agree (t : Tree) (id : String) :
    (∀ n, t.find? id = some n →
      ∃ path, t.first? id = some ⟨path, n⟩ ∧ t.firstOf? n.kind id = some ⟨path, n⟩) ∧
    ((∀ f, t.modifyGroup? id f = none ↔ ∀ g ∈ t.groups, g.id ≠ id) ∧
      ∀ f, t.modifyRule? id f = none ↔ ∀ r ∈ t.rules, r.id ≠ id) ∧
    (∀ path, ∀ g : Tree, t.firstOf? .group id = some ⟨path, g.toNode⟩ → ∀ f : Tree → Tree,
      ∃ (u : Tree) (before after : List (Site String)), t.modifyGroup? id f = some u ∧
        u.toNode = t.toNode.replaceAt path (f g).toNode ∧
        t.toNode.outline = before ++ ⟨path, g.toNode.bare⟩ ::
          (Node.outlineFrom 0 g.children).map (Site.beneath path) ++ after ∧
        u.toNode.outline = before ++ ⟨path, (f g).toNode.bare⟩ ::
          (Node.outlineFrom 0 (f g).children).map (Site.beneath path) ++ after ∧
        ((f g).id = id → u.firstOf? .group id = some ⟨path, (f g).toNode⟩)) ∧
    ∀ path r, t.firstOf? .rule id = some ⟨path, .rule r⟩ → ∀ f : Rule String → Rule String,
      ∃ (u : Tree) (before after : List (Site String)), t.modifyRule? id f = some u ∧
        u.toNode = t.toNode.replaceAt path (.rule (f r)) ∧
        t.toNode.outline = before ++ ⟨path, .rule r⟩ :: after ∧
        u.toNode.outline = before ++ ⟨path, .rule (f r)⟩ :: after ∧
        ((f r).id = id → u.firstOf? .rule id = some ⟨path, .rule (f r)⟩) := by
  refine ⟨fun n hn => ?_, ⟨modifyGroup?_eq_none_iff, modifyRule?_eq_none_iff⟩, fun path g hg f => ?_,
    fun path r hr f => ?_⟩
  · rw [find?_eq_first?] at hn
    obtain ⟨⟨path, n⟩, hs, rfl⟩ := Option.map_eq_some_iff.1 hn
    exact ⟨path, hs, firstOf?_of_first? hs⟩
  · obtain ⟨u, hu, hnode⟩ := modifyGroup?_of_firstOf? hg f
    obtain ⟨before, after, -, ht, hreplaced⟩ := Node.outline_replaceAt (at?_of_firstOf? hg)
    -- the outline of a group is the group of its own and then its children
    have hgroup : ∀ g : Tree, g.toNode.outline.map (Site.beneath path) = ⟨path, g.toNode.bare⟩ ::
        (Node.outlineFrom 0 g.children).map (Site.beneath path) := by
      intro g
      simp [toNode, Site.beneath, Node.bare]
    refine ⟨u, before, after, hu, hnode, ?_, ?_, firstOf?_of_replaceAt hg hnode rfl⟩
    · rw [ht, hgroup]
    · rw [hnode, hreplaced, hgroup]
  · obtain ⟨u, hu, hnode⟩ := modifyRule?_of_firstOf? hr f
    obtain ⟨before, after, -, ht, hreplaced⟩ := Node.outline_replaceAt (at?_of_firstOf? hr)
    refine ⟨u, before, after, hu, hnode, ?_, ?_, firstOf?_of_replaceAt hr hnode rfl⟩
    · simpa [Site.beneath] using ht
    · simpa [Site.beneath, hnode] using hreplaced (.rule (f r))

/-- A tree in which a rule has the id of a group after it, and another one the id of the root. -/
def sharedIds : Tree :=
  ⟨"a", .and, [.rule ⟨"b", "age", "gt", .nat 5, "number", none⟩,
    .group "b" .or [.rule ⟨"a", "style", "eq", .null, "select", none⟩]]⟩

/-- The search for `b` ends at the rule, and so does the change of a rule; the change of a group passes over
it.  The search for `a` ends at the root, and the change of a rule goes on to the inner group. -/
theorem lookups_agree_sharedIds :
    (∃ n path, sharedIds.find? "b" = some n ∧ n.kind = .rule ∧
      sharedIds.firstOf? .rule "b" = some ⟨path, n⟩) ∧
    (∃ u : Tree, sharedIds.firstOf? .group "b" =
        some ⟨[1], .group "b" .or [.rule ⟨"a", "style", "eq", .null, "select", none⟩]⟩ ∧
      sharedIds.modifyGroup? "b" (fun g => { g with combinator := .and }) = some u ∧
      u.firstOf? .group "b" =
        some ⟨[1], .group "b" .and [.rule ⟨"a", "style", "eq", .null, "select", none⟩]⟩) ∧
    ∃ (u : Tree) (before after : List (Site String)),
      sharedIds.firstOf? .rule "a" = some ⟨[1, 0], .rule ⟨"a", "style", "eq", .null, "select", none⟩⟩ ∧
      sharedIds.modifyRule? "a" (fun r => { r with op := "ne" }) = some u ∧
      u.toNode.outline =
        before ++ ⟨[1, 0], .rule ⟨"a", "style", "ne", .null, "select", none⟩⟩ :: after := by
  have hfind : sharedIds.find? "b" = some (.rule ⟨"b", "age", "gt", .nat 5, "number", none⟩) := rfl
  have hgroup : sharedIds.firstOf? .group "b" = some ⟨[1], toNode ⟨"b", .or,
      [.rule ⟨"a", "style", "eq", .null, "select", none⟩]⟩⟩ := rfl
  have hrule : sharedIds.firstOf? .rule "a" =
      some ⟨[1, 0], .rule ⟨"a", "style", "eq", .null, "select", none⟩⟩ := rfl
  refine ⟨?_, ?_, ?_⟩
  · obtain ⟨path, -, hfirst⟩ := (lookups_agree sharedIds "b").1 _ hfind
    exact ⟨_, path, hfind, rfl, hfirst⟩
  · obtain ⟨u, before, after, hu, -, -, -, hagain⟩ := (lookups_agree sharedIds "b").2.2.1 _ _ hgroup
      fun g => { g with combinator := .and }
    exact ⟨u, hgroup, hu, hagain rfl⟩
  · obtain ⟨u, before, after, hu, -, -, houtline, -⟩ := (lookups_agree sharedIds "a").2.2.2 _ _ hrule
      fun r => { r with op := "ne" }
    exact ⟨u, before, after, hrule, hu, houtline⟩

end Group

end Sieve
