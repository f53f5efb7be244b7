import Sieve.Proofs.Store.Step
import Sieve.Proofs.Tree.Outline

/-!
# Removals

A removal takes out the first node of the walk below the root that has the id and an accepted kind, with
everything below it, and moves nothing but the later children of the group that it leaves.

* `Group.Lacks`: an id that a tree does not have is found in no way; `Group.lacks_of_remove?` says so of the
  ids of what has been taken out, where no id is repeated;
* `Store.remove_of_removal?`, `Store.remove_of_removal?_eq_none`: the store asks whether the tree contains
  the id before it looks for the node, which never makes a difference;
* `Store.removal_exact`: both outcomes.
-/

namespace Sieve

/-! ### Ids that a tree does not have -/

namespace Group

variable {t : Tree} {i : String}

theorem id_mem_ids_of_mem_rules {r : Rule String} (h : r ∈ t.rules) : r.id ∈ t.ids := by
  obtain ⟨n, hn, hr⟩ := List.mem_filterMap.1 h
  cases n with
  | rule r =>
    cases hr
    exact List.mem_map_of_mem hn
  | group i c cs => cases hr

theorem id_mem_ids_of_mem_groups {g : Tree} (h : g ∈ t.groups) : g.id ∈ t.ids := by
  obtain ⟨n, hn, hg⟩ := List.mem_filterMap.1 h
  cases n with
  | rule r => cases hg
  | group i c cs =>
    cases hg
    exact List.mem_map_of_mem hn

/-- An id that a tree does not have is found in no way. -/
structure Lacks (t : Tree) (i : String) : Prop where
  contains : t.contains i = false
  find? : t.find? i = none
  rules : ∀ r ∈ t.rules, r.id ≠ i
  groups : ∀ g ∈ t.groups, g.id ≠ i

theorem lacks_of_notMem (h : i ∉ t.ids) : t.Lacks i where
  contains := by rwa [← Bool.not_eq_true, contains_iff]
  find? := by
    rw [find?_eq_find?_walk, List.find?_eq_none]
    intro n hn hid
    exact h (of_decide_eq_true hid ▸ List.mem_map_of_mem hn)
  rules r hr hid := h (hid ▸ id_mem_ids_of_mem_rules hr)
  groups g hg hid := h (hid ▸ id_mem_ids_of_mem_groups hg)

/-- Where no id is repeated, a tree lacks the ids of what has been taken out of it. -/
theorem lacks_of_remove? {id : String} {kind : Option Kind} {n : Node String} {u : Tree}
    (ht : t.ids.Nodup) (h : t.remove? id kind = some (n, u)) : ∀ i ∈ n.ids, u.Lacks i := by
  obtain ⟨l, r, hids, hu⟩ := ids_remove? h
  intro i hi
  refine lacks_of_notMem fun hmem => ?_
  rw [hids, List.nodup_append, List.nodup_append] at ht
  rw [hu, List.mem_append] at hmem
  rcases hmem with hl | hr
  · exact ht.1.2.2 i hl i hi rfl
  · exact ht.2.2 i (List.mem_append_right _ hi) i hr rfl

end Group

/-! ### Both outcomes -/

namespace Store

variable {s : Store} {id : String} {kind : Option Kind}

theorem remove_of_removal?_eq_none (h : s.tree.removal? id kind = none) :
    s.remove id kind = (none, s) := by
  rw [remove, Group.remove?_of_removal?_eq_none h]
  split <;> rfl

theorem remove_of_removal? {site : Site String} {u : Tree} (h : s.tree.removal? id kind = some site)
    (hu : s.tree.remove? id kind = some (site.node, u)) :
    s.remove id kind = (some site.node, s.commit u) := by
  rw [remove, if_pos (Group.contains_of_removal? h), hu]

/-- **A removal that has no node to take out answers none and changes nothing.  Any other removal answers
the first node below the root that has the id and an accepted kind, with everything below it, and
publishes the tree without it: the walk without the block of that node, each other node of its own what
it was, at the end of the same way but for the later children of the group, which are one place up.
Where no id is repeated, no id of what has been taken out is found any more.** -/
theorem removal_exact (s : Store) (id : String) (kind : Option Kind) :
    (s.tree.removal? id kind = none →
      s.tree.remove? id kind = none ∧ s.run (.removing id kind) = (.removed none, s)) ∧
    (∀ site, s.tree.removal? id kind = some site →
      ∃ (path : List Nat) (k : Nat) (u : Tree) (l r : List (Site String)),
        site.path = path ++ [k] ∧ s.tree.toNode.at? site.path = some site.node ∧
        s.tree.remove? id kind = some (site.node, u) ∧
        s.run (.removing id kind) = (.removed (some site.node), s.commit u) ∧
        s.tree.toNode.outline = l ++ site.node.outline.map (Site.beneath site.path) ++ r ∧
        u.toNode.outline = (l ++ r).map (Site.closedUp path k) ∧
        s.tree.walk.map Node.bare =
          l.map Site.node ++ site.node.walk.map Node.bare ++ r.map Site.node ∧
        u.walk.map Node.bare = l.map Site.node ++ r.map Site.node ∧
        (s.tree.ids.Nodup → ∀ i ∈ site.node.ids, u.Lacks i)) ∧
    (s.run (.removing id kind)).2.version =
      s.version + if (s.tree.removal? id kind).isSome then 1 else 0 := by
  have hmiss : s.tree.removal? id kind = none → s.run (.removing id kind) = (.removed none, s) :=
    fun h => by rw [run_removing, remove_of_removal?_eq_none h]
  refine ⟨fun h => ⟨Group.remove?_of_removal?_eq_none h, hmiss h⟩, fun site h => ?_, ?_⟩
  · obtain ⟨u, g, hu, hplace⟩ := Group.remove?_of_removal? h
    obtain ⟨l, r, ht, hout⟩ := g.outline
    have hwalk := congrArg (List.map Site.node) ht
    have hleft := congrArg (List.map Site.node) hout
    simp only [List.map_append, Site.map_node_beneath, Site.map_node_closedUp,
      Node.map_node_outline] at hwalk hleft
    refine ⟨g.path, g.before.length, u, l, r, hplace,
      Node.at?_of_mem_sites (Group.mem_sites_of_removal? h), hu, ?_, hplace ▸ ht, hout, hwalk, hleft,
      fun hn => Group.lacks_of_remove? hn hu⟩
    rw [run_removing, remove_of_removal? h hu]
  · cases h : s.tree.removal? id kind with
    | none => rw [hmiss h]; rfl
    | some site =>
      obtain ⟨u, -, hu, -⟩ := Group.remove?_of_removal? h
      rw [run_removing, remove_of_removal? h hu]
      rfl

/-- A rule of an id. -/
def ruleOf (id : String) : Node String := .rule ⟨id, "age", "gt", .nat 5, "number", none⟩

/-- A store in which the root, a group, a rule in that group and a rule beside it have one id. -/
def namesakes : Store :=
  .ofTree ⟨fun _ => "", 0⟩ ⟨"a", .and, [.group "a" .or [ruleOf "b", ruleOf "a"], ruleOf "a"]⟩

/-- A store of distinct ids, with a group in a group. -/
def nestedGroups : Store :=
  .ofTree ⟨fun _ => "", 0⟩ ⟨"root", .and, [ruleOf "q", .group "g" .or [.group "h" .and [ruleOf "r"]]]⟩

/-- The rule in the group goes first, since the root stays and the group is no rule. -/
theorem removal_exact_namesakes :
    (namesakes.tree.removal? "a" (some .rule) = some ⟨[0, 1], ruleOf "a"⟩ ∧
      ∃ u : Tree, u.ids = ["a", "a", "b", "a"] ∧
        namesakes.run (.removing "a" (some .rule)) = (.removed (some (ruleOf "a")), namesakes.commit u)) ∧
    (namesakes.tree.removal? "b" (some .group) = none ∧
      namesakes.run (.removing "b" (some .group)) = (.removed none, namesakes)) ∧
    nestedGroups.tree.removal? "h" none = some ⟨[1, 0], .group "h" .and [ruleOf "r"]⟩ ∧
      nestedGroups.tree.ids.Nodup ∧
      ∃ u : Tree, nestedGroups.run (.removing "h" none) =
          (.removed (some (.group "h" .and [ruleOf "r"])), nestedGroups.commit u) ∧ u.Lacks "r" := by
  have hrule : namesakes.tree.removal? "a" (some .rule) = some ⟨[0, 1], ruleOf "a"⟩ := rfl
  have hgroup : namesakes.tree.removal? "b" (some .group) = none := rfl
  have hnested : nestedGroups.tree.removal? "h" none =
      some ⟨[1, 0], .group "h" .and [ruleOf "r"]⟩ := rfl
  have hnodup : nestedGroups.tree.ids.Nodup := by decide
  refine ⟨⟨hrule, ?_⟩, ⟨hgroup, ((removal_exact namesakes "b" (some .group)).1 hgroup).2⟩, hnested,
    hnodup, ?_⟩
  · obtain ⟨-, -, u, -, -, -, -, hu, hrun, -⟩ :=
      (removal_exact namesakes "a" (some .rule)).2.1 _ hrule
    have hids : u.ids = ["a", "a", "b", "a"] := by
      cases hu
      rfl
    exact ⟨u, hids, hrun⟩
  · obtain ⟨-, -, u, -, -, -, -, -, hrun, -, -, -, -, hlacks⟩ :=
      (removal_exact nestedGroups "h" none).2.1 _ hnested
    exact ⟨u, hrun, hlacks hnodup "r" (by decide)⟩

end Store

end Sieve
