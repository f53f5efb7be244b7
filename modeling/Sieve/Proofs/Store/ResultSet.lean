import Sieve.Proofs.Filter.Monotone
import Sieve.Proofs.Store.Insertion

/-!
# What a change does to the items that pass

A change that brings or takes away one node moves the items that pass in one direction.  Which one is
decided by the group in which the node stands and by whether the group has other children; what stands
above the group does not matter.

* `Store.of_run_adding`, `Store.of_run_removing`: what such commands do to the tree;
* `Store.filter_directed`: where they move the items that pass.
-/

namespace Sieve

namespace Store

variable {s s' : Store}

/-- An addition that is not refused brings one child more, the last of the group that it goes to. -/
theorem of_run_adding {d : Node Unit} {p : Option String} {id : String}
    (h : s.run (.adding d p) = (.added id, s')) :
    ∃ path, ∃ g : Tree, ∃ n : Node String, s.tree.destination? p = some ⟨path, g.toNode⟩ ∧
      s.tree.toNode.at? path = some g.toNode ∧
      s'.tree.toNode = s.tree.toNode.replaceAt path (g.push n).toNode := by
  rw [run_adding] at h
  obtain ⟨-, he⟩ | ⟨path, g, t, hg, ht, he⟩ := s.add_cases d p
  · rw [he] at h
    cases h
  · rw [he] at h
    cases h
    exact ⟨path, g, _, (s.tree.destination?_eq_first? p).trans hg, Group.at?_of_first? hg, ht⟩

/-- A removal that finds something takes it out, and it was one child more. -/
theorem of_run_removing {id : String} {kind : Option Kind} {n : Node String}
    (h : s.run (.removing id kind) = (.removed (some n), s')) :
    ∃ g : n.Graft s'.tree.toNode s.tree.toNode, s.tree.removal? id kind = some ⟨g.place, n⟩ := by
  rw [run_removing] at h
  obtain he | ⟨m, t, -, hremove, he⟩ := s.remove_cases id kind
  · rw [he] at h
    cases h
  · rw [he] at h
    cases h
    exact Group.graft_of_remove? hremove

/-- **What a successful addition brings narrows the items that pass if the group that it goes to is an `and`
or has no child, and widens them if that group is an `or` that has one.  What a successful removal takes
away works the other way, by the group that it leaves.** -/
theorem filter_directed (s : Store) :
    (∀ d p id s', s.run (.adding d p) = (.added id, s') →
      ∃ path i c cs, s.tree.destination? p = some ⟨path, .group i c cs⟩ ∧
        ∀ (e : Evaluator) (items : List Json),
          (c = .and ∨ cs = [] → (e.filter items s'.tree).Sublist (e.filter items s.tree)) ∧
          (c = .or → cs ≠ [] → (e.filter items s.tree).Sublist (e.filter items s'.tree))) ∧
    ∀ id kind n s', s.run (.removing id kind) = (.removed (some n), s') →
      ∃ path i c before after,
        s.tree.removal? id kind = some ⟨path ++ [before.length], n⟩ ∧
        s.tree.toNode.at? path = some (.group i c (before ++ n :: after)) ∧
        s'.tree.toNode = s.tree.toNode.replaceAt path (.group i c (before ++ after)) ∧
        ∀ (e : Evaluator) (items : List Json),
          (c = .and ∨ before ++ after = [] →
            (e.filter items s.tree).Sublist (e.filter items s'.tree)) ∧
          (c = .or → before ++ after ≠ [] →
            (e.filter items s'.tree).Sublist (e.filter items s.tree)) := by
  constructor
  · intro d p id s' h
    obtain ⟨path, g, n, hdestination, hat, hpush⟩ := of_run_adding h
    have hmore : g.children ++ [] = [] ↔ g.children = [] := by rw [List.append_nil]
    refine ⟨path, g.id, g.combinator, g.children, hdestination, fun e items => ⟨fun hc => ?_, ?_⟩⟩
    · exact e.filter_narrows (Group.pushGraft hat hpush) (hc.imp_right hmore.2) items
    · exact fun hc hne => e.filter_widens (Group.pushGraft hat hpush) hc (mt hmore.1 hne) items
  · intro id kind n s' h
    obtain ⟨g, hg⟩ := of_run_removing h
    refine ⟨g.path, g.id, g.combinator, g.before, g.after, hg, g.withNode, g.cut,
      fun e items => ⟨?_, ?_⟩⟩
    · exact fun hc => e.filter_narrows g hc items
    · exact fun hc hne => e.filter_widens g hc hne items

/-- A rule that stands alone in an `or`. -/
def loneRule : Node String := .rule ⟨"r", "age", "gt", .nat 5, "number", none⟩

/-- An empty group in an `or`, and the lone rule below a group whose combinator nobody knows. -/
def mixedTree : Tree :=
  ⟨"root", .or, [.group "open" .or [], .group "odd" (.ofName "xor") [.group "only" .or [loneRule]]]⟩

/-- A store of this tree. -/
def mixedStore : Store := .ofTree ⟨fun n => ["a", "b"].getD n "", 0⟩ mixedTree

/-- A way to a first child tells the way to its group. -/
theorem way_to_first_child {path other : List Nat} {before : List (Node String)} {m n : Node String}
    (h : some (Site.mk (path ++ [0]) m) = some ⟨other ++ [before.length], n⟩) :
    other = path ∧ before = [] := by
  obtain ⟨hway, -⟩ := Site.mk.inj (Option.some.inj h)
  obtain ⟨hpath, hplace⟩ := List.append_inj' hway rfl
  exact ⟨hpath.symm, List.length_eq_zero_iff.1 (List.singleton_inj.1 hplace).symm⟩

/-- The first child of an empty group narrows what passes, and the second child of an `or` widens it.  It
grows when the lone rule goes, and shrinks when a child of an `or` goes that has another. -/
theorem filter_directed_mixedStore :
    (∃ s', mixedStore.run (.adding nestedDraft (some "open")) = (.added "a", s') ∧
      ∀ (e : Evaluator) (items : List Json),
        (e.filter items s'.tree).Sublist (e.filter items mixedTree)) ∧
    (∃ s', mixedStore.run (.adding nestedDraft (some "only")) = (.added "a", s') ∧
      ∀ (e : Evaluator) (items : List Json),
        (e.filter items mixedTree).Sublist (e.filter items s'.tree)) ∧
    (∃ s', mixedStore.run (.removing "r" (some .rule)) = (.removed (some loneRule), s') ∧
      ∀ (e : Evaluator) (items : List Json),
        (e.filter items mixedTree).Sublist (e.filter items s'.tree)) ∧
    ∃ s', mixedStore.run (.removing "open" none) = (.removed (some (.group "open" .or [])), s') ∧
      ∀ (e : Evaluator) (items : List Json),
        (e.filter items s'.tree).Sublist (e.filter items mixedTree) := by
  obtain ⟨hadding, hremoving⟩ := filter_directed mixedStore
  refine ⟨⟨_, rfl, ?_⟩, ⟨_, rfl, ?_⟩, ⟨_, rfl, ?_⟩, ⟨_, rfl, ?_⟩⟩
  · obtain ⟨path, i, c, cs, hd, hfilter⟩ := hadding nestedDraft (some "open") "a" _ rfl
    have hopen : mixedTree.destination? (some "open") = some ⟨[0], .group "open" .or []⟩ := rfl
    cases hopen.symm.trans hd
    exact fun e items => (hfilter e items).1 (.inr rfl)
  · obtain ⟨path, i, c, cs, hd, hfilter⟩ := hadding nestedDraft (some "only") "a" _ rfl
    have honly : mixedTree.destination? (some "only") =
        some ⟨[1, 0], .group "only" .or [loneRule]⟩ := rfl
    cases honly.symm.trans hd
    exact fun e items => (hfilter e items).2 rfl (List.cons_ne_nil _ _)
  · obtain ⟨path, i, c, before, after, hr, hat, -, hfilter⟩ :=
      hremoving "r" (some .rule) loneRule _ rfl
    have hlone : mixedTree.removal? "r" (some .rule) = some ⟨[1, 0] ++ [0], loneRule⟩ := rfl
    obtain ⟨rfl, rfl⟩ := way_to_first_child (hlone.symm.trans hr)
    have honly : mixedTree.toNode.at? [1, 0] = some (.group "only" .or [loneRule]) := rfl
    cases honly.symm.trans hat
    exact fun e items => (hfilter e items).1 (.inr rfl)
  · obtain ⟨path, i, c, before, after, hr, hat, -, hfilter⟩ :=
      hremoving "open" none (.group "open" .or []) _ rfl
    have hopen : mixedTree.removal? "open" none = some ⟨[] ++ [0], .group "open" .or []⟩ := rfl
    obtain ⟨rfl, rfl⟩ := way_to_first_child (hopen.symm.trans hr)
    have hroot : mixedTree.toNode.at? [] = some mixedTree.toNode := rfl
    cases hroot.symm.trans hat
    exact fun e items => (hfilter e items).2 rfl (List.cons_ne_nil _ _)

end Store

end Sieve
