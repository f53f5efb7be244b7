import Sieve.Proofs.Store.Identity
import Sieve.Proofs.Store.Insertion
import Sieve.Proofs.Store.Removal

/-!
# Additions undone

What an addition has brought can be taken out again, and then the tree is what it was.  The removal looks
for the first node of the id, and no other node can come in its way: the id is new, and what was added with
the node stands behind it.

* `Group.findGroup?_of_mem_groups`: where no id is repeated, every group is found;
* `Store.issued_adding`: the ids that an addition gives away are those of the node that it brings;
* `Store.remove_of_graft`: a child with a new id is taken out again;
* `Store.undo_addition`: the addition succeeds, and the removal answers what it has brought.
-/

namespace Sieve

/-- Where no id is repeated, every group of a tree is found under its id. -/
theorem Group.findGroup?_of_mem_groups {t g : Tree} (h : t.ids.Nodup) (hg : g ∈ t.groups) :
    t.findGroup? g.id = some g := by
  obtain ⟨n, hn, hgroup⟩ := List.mem_filterMap.1 hg
  cases n with
  | rule r => cases hgroup
  | group i c cs =>
    cases hgroup
    have hfind : t.find? i = some (.group i c cs) := find?_of_nodup h hn
    rw [findGroup?, hfind]
    rfl

namespace Store

variable {s : Store} {d : Node Unit} {p : Option String}

/-- The ids that a successful addition gives away are those of the node that it brings. -/
theorem issued_adding {t : Tree}
    (h : s.add d p = .ok ((d.assign s.ids).1.id, { s with ids := (d.assign s.ids).2 }.commit t)) :
    s.issued (.adding d p) = (d.assign s.ids).1.ids := by
  obtain ⟨hids, hused⟩ := Node.assign_spec d s.ids
  rw [issued, run_adding, h, hids]
  simp [ofAdded, commit, hused, IdSupply.after]

/-- One child more with an id that is nowhere else is what a removal of that id takes out, and what stays
is the tree without it. -/
theorem remove_of_graft {t : Tree} {n : Node String} (graft : n.Graft t.toNode s.tree.toNode)
    (h : n.id ∉ t.ids) : s.remove n.id none = (some n, s.commit t) := by
  have hremoval : s.tree.removal? n.id none = some ⟨graft.place, n⟩ := Group.removal?_of_graft graft h
  obtain ⟨u, graft', hu, hplace⟩ := Group.remove?_of_removal? hremoval
  have hback : u = t := Group.toNode_injective (graft.eq_of_place_eq graft' hplace).symm
  rw [remove_of_removal? hremoval hu, hback]

/-- **Where no id is repeated, a draft can be added below every group, and if its ids are not in the tree
yet, the removal of the id that is answered takes out just the node that has been added, with everything
below it, and the tree is the one before the addition, two versions later.** -/
theorem undo_addition (hs : s.tree.ids.Nodup) (hp : ∀ i, p = some i → ∃ g ∈ s.tree.groups, g.id = i)
    (hfresh : ∀ i ∈ s.issued (.adding d p), i ∉ s.tree.ids) :
    ∃ (path : List Nat) (g : Tree) (n : Node String) (s' s'' : Store),
      s.tree.destination? p = some ⟨path, g.toNode⟩ ∧
      s.run (.adding d p) = (.added n.id, s') ∧ n.eraseIds = d ∧
      s'.tree.toNode.at? (path ++ [g.children.length]) = some n ∧
      s'.run (.removeNode n.id) = (.removed (some n), s'') ∧
      s''.tree = s.tree ∧ s''.version = s.version + 2 := by
  obtain ⟨hnone, -⟩ | ⟨path, g, t, hg, ht, he⟩ := s.add_cases d p
  · -- the parent is there
    cases p with
    | none =>
      rw [Option.getD_none, Group.findGroup?_of_first? s.tree.first?_root] at hnone
      cases hnone
    | some i =>
      obtain ⟨g, hg, rfl⟩ := hp i rfl
      rw [Option.getD_some, Group.findGroup?_of_mem_groups hs hg] at hnone
      cases hnone
  · have hissued := issued_adding he
    obtain ⟨n, hn⟩ : ∃ n, (d.assign s.ids).1 = n := ⟨_, rfl⟩
    rw [hn] at ht he hissued
    let graft := Group.pushGraft (Group.at?_of_first? hg) ht
    have hnew : n.id ∉ s.tree.ids := hfresh _ (hissued ▸ List.mem_map_of_mem n.self_mem_walk)
    have hdest : s.tree.destination? p = some ⟨path, g.toNode⟩ := by
      rw [Group.destination?_eq_first?, hg]
    have hrun : s.run (.adding d p) = (.added n.id, { s with ids := (d.assign s.ids).2 }.commit t) := by
      rw [run_adding, he]
      rfl
    have hgone : ({ s with ids := (d.assign s.ids).2 }.commit t).run (.removing n.id none) =
        (.removed (some n), ({ s with ids := (d.assign s.ids).2 }.commit t).commit s.tree) := by
      rw [run_removing, remove_of_graft graft hnew]
    exact ⟨path, g, n, _, _, hdest, hrun, hn ▸ Node.eraseIds_assign d s.ids, graft.at?_place, hgone,
      rfl, rfl⟩

/-- A store with a group in a group, and two more ids to give away. -/
def suppliedStore : Store := .ofTree ⟨fun n => ["a", "b"].getD n "", 0⟩ nestedGroups.tree

/-- A group with a rule in it, added below the inner group and taken out again. -/
theorem undo_addition_nestedDraft :
    (suppliedStore.tree.ids.Nodup ∧
      (∀ i, some "h" = some i → ∃ g ∈ suppliedStore.tree.groups, g.id = i) ∧
      ∀ i ∈ suppliedStore.issued (.adding nestedDraft (some "h")), i ∉ suppliedStore.tree.ids) ∧
    ∃ s' s'' : Store, suppliedStore.run (.adding nestedDraft (some "h")) = (.added "a", s') ∧
      s'.run (.removeNode "a") =
        (.removed (some (.group "a" .or [.rule ⟨"b", "style", "eq", .null, "select", none⟩])), s'') ∧
      s''.tree = suppliedStore.tree ∧ s''.version = 2 := by
  have hs : suppliedStore.tree.ids.Nodup := by decide
  have hp : ∀ i, some "h" = some i → ∃ g ∈ suppliedStore.tree.groups, g.id = i := by
    rintro i ⟨⟩
    have hgroup : suppliedStore.tree.groups[2]? = some ⟨"h", .and, [ruleOf "r"]⟩ := rfl
    exact ⟨_, List.mem_of_getElem? hgroup, rfl⟩
  have hfresh : ∀ i ∈ suppliedStore.issued (.adding nestedDraft (some "h")),
      i ∉ suppliedStore.tree.ids := by decide
  obtain ⟨path, ⟨i, c, cs⟩, n, s', s'', hdest, hrun, -, hat, hgone, hback, hversion⟩ :=
    undo_addition hs hp hfresh
  obtain ⟨-, rfl⟩ := Prod.mk.inj hrun
  cases hdest
  cases hat
  exact ⟨⟨hs, hp, hfresh⟩, _, s'', rfl, hgone, hback, hversion⟩

end Store

end Sieve
