import Sieve.Proofs.Store.Step
import Sieve.Proofs.Tree.Equality
import Sieve.Proofs.Tree.Outline

/-!
# Updates

An update hits if the first node of the id is of the kind to update, and then touches that node alone.  It
looks for the node in one walk and writes it in another one that passes over nodes of the other kind; where
the first node of the id is of the right kind, both end there.

* `RulePatch.Merges`: what a patch sets is set, and what it leaves out is kept;
* `Group.outline_of_rule`, `Group.outline_of_group`: the outline of a tree in which one node has given way
  differs at the place of that node only;
* `Store.updateRule_of_first?`, `Store.updateGroup_of_first?`: an update that hits puts such a tree in
  place, unless it equals the one before;
* `Session.update_exact`: both kinds of updates, for the store and for all that its users hold.
-/

namespace Sieve

/-! ### What patches say -/

/-- A member after a change: what the change sets it to, and what it was if the change does not set it. -/
def Settled {α : Type} (set? : Option α) (old now : α) : Prop :=
  (∀ a, set? = some a → now = a) ∧ (set? = none → now = old)

theorem settled_getD {α : Type} (set? : Option α) (old : α) : Settled set? old (set?.getD old) := by
  cases set? <;> simp [Settled]

/-- A rule is what another one becomes by a patch: the members that the patch sets are set, the value to
null if that is what the patch says, and the others are kept, the id in any case. -/
structure RulePatch.Merges (p : RulePatch) (old now : Rule String) : Prop where
  id : now.id = old.id
  field : Settled p.field old.field now.field
  op : Settled p.op old.op now.op
  value : Settled p.value old.value now.value
  component : Settled p.component old.component now.component
  extra : Settled (p.extra.map some) old.extra now.extra

theorem RulePatch.merges_apply (p : RulePatch) (r : Rule String) : p.Merges r (p.apply r) where
  id := rfl
  field := settled_getD p.field r.field
  op := settled_getD p.op r.op
  value := settled_getD p.value r.value
  component := settled_getD p.component r.component
  extra := by
    have hextra : (p.apply r).extra = (p.extra.map some).getD r.extra := by
      cases h : p.extra <;> simp [apply, h]
    rw [hextra]
    exact settled_getD _ _

/-! ### One node that has given way -/

namespace Group

variable {t u : Tree} {id : String} {path : List Nat}

/-- Where a rule has given way to another one, the outline differs at its place only. -/
theorem outline_of_rule {r r' : Rule String} (h : t.toNode.at? path = some (.rule r))
    (hu : u.toNode = t.toNode.replaceAt path (.rule r')) : ∃ before after,
      t.toNode.outline = before ++ ⟨path, .rule r⟩ :: after ∧
        u.toNode.outline = before ++ ⟨path, .rule r'⟩ :: after := by
  obtain ⟨before, after, -, ht, hreplaced⟩ := Node.outline_replaceAt h
  refine ⟨before, after, ?_, ?_⟩
  · simpa [Site.beneath] using ht
  · simpa [Site.beneath, hu] using hreplaced (.rule r')

/-- Where a group has got another combinator, the outline differs at its place only. -/
theorem outline_of_group {i : String} {c c' : Combinator} {cs : List (Node String)}
    (h : t.toNode.at? path = some (.group i c cs))
    (hu : u.toNode = t.toNode.replaceAt path (.group i c' cs)) : ∃ before after,
      t.toNode.outline = before ++ ⟨path, .group i c []⟩ :: after ∧
        u.toNode.outline = before ++ ⟨path, .group i c' []⟩ :: after := by
  obtain ⟨before, after, -, ht, hreplaced⟩ := Node.outline_replaceAt h
  refine ⟨before, (Node.outlineFrom 0 cs).map (Site.beneath path) ++ after, ?_, ?_⟩
  · simpa [Site.beneath] using ht
  · simpa [Site.beneath, hu] using hreplaced (.group i c' cs)

end Group

/-! ### Updates that hit -/

namespace Store

variable {s : Store} {id : String} {path : List Nat}

/-- After a tree has been put in place, the tree of the store equals it. -/
theorem tree_replace_beq (s : Store) (t : Tree) : ((s.replace t).tree == t) = true := by
  obtain ⟨he, hr⟩ | ⟨-, hr⟩ := s.replace_cases t <;> rw [hr]
  · exact he
  · exact Group.beq_self t

/-- An update of a rule that hits puts the tree in place in which the rule has given way to the changed
one. -/
theorem updateRule_of_first? {r : Rule String} (h : s.tree.first? id = some ⟨path, .rule r⟩)
    (p : RulePatch) : ∃ t : Tree, t.toNode = s.tree.toNode.replaceAt path (.rule (p.apply r)) ∧
      s.updateRule id p = (true, s.replace t) := by
  obtain ⟨t, ht, hnode⟩ := Group.modifyRule?_of_first? h fun _ => p.apply r
  have hbeq : (s.tree == t) = (p.apply r == r) := by
    rw [Group.beq_replaceAt (Group.at?_of_first? h) hnode, Rule.beq_comm]
    rfl
  refine ⟨t, hnode, ?_⟩
  simp only [updateRule, Group.findRule?_of_first? h, ht, replace, hbeq]
  split <;> rfl

/-- An update of a group that hits puts the tree in place in which the group has got the combinator of the
patch, and the tree of the store is then this tree. -/
theorem updateGroup_of_first? {g : Tree} (h : s.tree.first? id = some ⟨path, g.toNode⟩)
    (p : GroupPatch) : ∃ t : Tree, t.toNode = s.tree.toNode.replaceAt path (p.apply g).toNode ∧
      s.updateGroup id p = (true, s.replace t) ∧ (s.replace t).tree = t := by
  obtain ⟨t, ht, hnode⟩ := Group.modifyGroup?_of_first? h p.apply
  have hbeq : (s.tree == t) = !p.combinator.any (· ≠ g.combinator) := by
    rw [Group.beq_replaceAt (Group.at?_of_first? h) hnode, Group.beq_apply]
  refine ⟨t, hnode, ?_, ?_⟩
  · simp only [updateGroup, Group.findGroup?_of_first? h, ht, replace, hbeq]
    cases p.combinator.any (· ≠ g.combinator) <;> rfl
  · obtain ⟨he, hr⟩ | ⟨-, hr⟩ := s.replace_cases t <;> rw [hr]
    · -- combinators are compared exactly, so nothing has changed
      have hsame : p.combinator.any (· ≠ g.combinator) = false := by simpa [he] using hbeq
      apply Group.toNode_injective
      rw [hnode, GroupPatch.apply_eq_self hsame, Node.replaceAt_self (Group.at?_of_first? h)]
    · rfl

end Store

/-! ### Both kinds of updates -/

/-- **An update of a rule hits just if the first node of the id is a rule, and an update of a group just if
it is a group.  One that hits puts the tree in place in which that node alone has changed: a rule to what
the patch makes of it, a group in its combinator.  The tree of the store then equals this tree, and is the
same in the case of a group.  One that misses leaves the store and all that its users hold as they are.** -/
theorem Session.update_exact (s : Session) (id : String) :
    (∀ p : RulePatch,
      ((∀ site ∈ s.store.tree.first? id, site.node.kind ≠ .rule) →
        s.step (.change (.updateRule id p)) = (.answer (.updated false), s)) ∧
      ∀ path r, s.store.tree.first? id = some ⟨path, .rule r⟩ →
        ∃ (now : Rule String) (t : Tree) (before after : List (Site String)), p.Merges r now ∧
          s.store.tree.toNode.outline = before ++ ⟨path, .rule r⟩ :: after ∧
          t.toNode.outline = before ++ ⟨path, .rule now⟩ :: after ∧
          s.step (.change (.updateRule id p)) =
            (.answer (.updated true), { s with store := s.store.replace t }) ∧
          ((s.store.replace t).tree == t) = true) ∧
    ∀ p : GroupPatch,
      ((∀ site ∈ s.store.tree.first? id, site.node.kind ≠ .group) →
        s.step (.change (.updateGroup id p)) = (.answer (.updated false), s)) ∧
      ∀ path i c cs, s.store.tree.first? id = some ⟨path, .group i c cs⟩ →
        ∃ (now : Combinator) (t : Tree) (before after : List (Site String)),
          Settled p.combinator c now ∧
          s.store.tree.toNode.outline = before ++ ⟨path, .group i c []⟩ :: after ∧
          t.toNode.outline = before ++ ⟨path, .group i now []⟩ :: after ∧
          s.step (.change (.updateGroup id p)) =
            (.answer (.updated true), { s with store := s.store.replace t }) ∧
          (s.store.replace t).tree = t := by
  refine ⟨fun p => ⟨fun h => ?_, fun path r h => ?_⟩, fun p => ⟨fun h => ?_, fun path i c cs h => ?_⟩⟩
  · obtain ⟨-, he⟩ | ⟨path, r, hr, -⟩ := s.store.updateRule_cases id p
    · simp only [step, Store.run, he]
      rfl
    · exact absurd rfl (h _ hr)
  · obtain ⟨t, ht, he⟩ := Store.updateRule_of_first? h p
    obtain ⟨before, after, hbefore, hafter⟩ := Group.outline_of_rule (Group.at?_of_first? h) ht
    refine ⟨p.apply r, t, before, after, p.merges_apply r, hbefore, hafter, ?_, s.store.tree_replace_beq t⟩
    simp only [step, Store.run, he]
    rfl
  · obtain ⟨-, he⟩ | ⟨path, g, hg, -⟩ := s.store.updateGroup_cases id p
    · simp only [step, Store.run, he]
      rfl
    · exact absurd rfl (h _ hg)
  · obtain ⟨t, ht, he, htree⟩ := Store.updateGroup_of_first? (g := ⟨i, c, cs⟩) h p
    obtain ⟨before, after, hbefore, hafter⟩ := Group.outline_of_group (Group.at?_of_first? h) ht
    refine ⟨_, t, before, after, settled_getD p.combinator c, hbefore, hafter, ?_, htree⟩
    simp only [step, Store.run, he]
    rfl

/-- A tree in which a rule stands below a group of its id, and a group beside a rule of its id. -/
def crossedIds : Tree :=
  ⟨"root", .and, [.group "g" .or [.rule ⟨"g", "style", "eq", .null, "select", none⟩],
    .rule ⟨"r", "age", "gt", .nat 5, "number", none⟩, .group "r" .and []]⟩

/-- Somebody who watches a store of this tree. -/
def crossedSession : Session :=
  ({ store := .ofTree ⟨fun _ => "", 0⟩ crossedIds } : Session).subscribe "w"

/-- Of each id only the first node is updated, a rule here to null and a group there to `and`; the nodes
of the same ids after them are not reached. -/
theorem Session.update_exact_crossedIds :
    ((∀ site ∈ crossedIds.first? "g", site.node.kind ≠ .rule) ∧
      crossedSession.step (.change (.updateRule "g" { op := some "ne" })) =
        (.answer (.updated false), crossedSession)) ∧
    ((∀ site ∈ crossedIds.first? "r", site.node.kind ≠ .group) ∧
      crossedSession.step (.change (.updateGroup "r" { combinator := some .or })) =
        (.answer (.updated false), crossedSession)) ∧
    (∃ (now : Rule String) (t : Tree),
      crossedIds.first? "r" = some ⟨[1], .rule ⟨"r", "age", "gt", .nat 5, "number", none⟩⟩ ∧
        now.op = "gt" ∧ now.value = .null ∧ ⟨[1], .rule now⟩ ∈ t.toNode.outline ∧
        crossedSession.step (.change (.updateRule "r" { value := some .null })) =
          (.answer (.updated true), { crossedSession with store := crossedSession.store.replace t })) ∧
    ∃ t : Tree, crossedIds.first? "g" =
          some ⟨[0], .group "g" .or [.rule ⟨"g", "style", "eq", .null, "select", none⟩]⟩ ∧
        ⟨[0], .group "g" .and []⟩ ∈ t.toNode.outline ∧
        (crossedSession.step (.change (.updateGroup "g" { combinator := some .and }))).2.store.tree = t := by
  have hg : crossedIds.first? "g" =
      some ⟨[0], .group "g" .or [.rule ⟨"g", "style", "eq", .null, "select", none⟩]⟩ := rfl
  have hr : crossedIds.first? "r" =
      some ⟨[1], .rule ⟨"r", "age", "gt", .nat 5, "number", none⟩⟩ := rfl
  have hnoRule : ∀ site ∈ crossedIds.first? "g", site.node.kind ≠ .rule := by decide
  have hnoGroup : ∀ site ∈ crossedIds.first? "r", site.node.kind ≠ .group := by decide
  refine ⟨⟨hnoRule, ((Session.update_exact crossedSession "g").1 _).1 hnoRule⟩,
    ⟨hnoGroup, ((Session.update_exact crossedSession "r").2 _).1 hnoGroup⟩, ?_, ?_⟩
  · obtain ⟨now, t, before, after, hmerges, -, ht, hstep, -⟩ :=
      ((Session.update_exact crossedSession "r").1 { value := some .null }).2 _ _ hr
    refine ⟨now, t, hr, hmerges.op.2 rfl, hmerges.value.1 _ rfl, ?_, hstep⟩
    rw [ht]
    simp
  · obtain ⟨now, t, before, after, hsettled, -, ht, hstep, htree⟩ :=
      ((Session.update_exact crossedSession "g").2 { combinator := some .and }).2 _ _ _ _ hg
    have hnow : now = .and := hsettled.1 _ rfl
    refine ⟨t, hg, ?_, ?_⟩
    · rw [ht, hnow]
      simp
    · rw [hstep]
      exact htree

end Sieve
