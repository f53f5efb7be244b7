import Sieve.Proofs.Tree.FirstMatch
import Sieve.Store.Command

/-!
# What a change of a store does

One statement for each operation that says everything it can do: which answer it gives and whether it
publishes a tree, and which.

What is found is changed where it stands, so no operation gives its answer without its effect.

* `Store.add_cases`, `Store.updateRule_cases`, `Store.updateGroup_cases`, `Store.remove_cases`,
  `Store.replace_cases`;
* `Command.removing`: the command that takes out a node of a kind.
-/

namespace Sieve

namespace Store

@[simp] theorem tree_commit (s : Store) (t : Tree) : (s.commit t).tree = t := rfl

/-- An addition is refused if the parent is no group, and else publishes the tree with the draft as the
last child of the parent. -/
theorem add_cases (s : Store) (d : Node Unit) (p : Option String) :
    (s.tree.findGroup? (p.getD s.tree.id) = none ∧
      s.add d p = .error (.parentNotFound (p.getD s.tree.id))) ∨
    ∃ path, ∃ g t : Tree, s.tree.first? (p.getD s.tree.id) = some ⟨path, g.toNode⟩ ∧
      t.toNode = s.tree.toNode.replaceAt path (g.push (d.assign s.ids).1).toNode ∧
      s.add d p = .ok ((d.assign s.ids).1.id, { s with ids := (d.assign s.ids).2 }.commit t) := by
  cases hg : s.tree.findGroup? (p.getD s.tree.id) with
  | none => exact .inl ⟨rfl, by simp [add, hg]⟩
  | some g =>
    obtain ⟨path, hfirst⟩ := Group.first?_of_findGroup? hg
    obtain ⟨t, ht, hnode⟩ := Group.modifyGroup?_of_first? hfirst (·.push (d.assign s.ids).1)
    refine .inr ⟨path, g, t, hfirst, hnode, ?_⟩
    simp only [add, hg]
    show Except.ok (_, commit? _ _) = _
    rw [ht]
    rfl

/-- A change of a rule misses, or hits without effect, or publishes the tree with the rule changed. -/
theorem updateRule_cases (s : Store) (id : String) (p : RulePatch) :
    (s.tree.findRule? id = none ∧ s.updateRule id p = (false, s)) ∨
    ∃ path r, s.tree.first? id = some ⟨path, .rule r⟩ ∧
      ((p.apply r == r) = true ∧ s.updateRule id p = (true, s) ∨
        (p.apply r == r) = false ∧ ∃ t : Tree,
          t.toNode = s.tree.toNode.replaceAt path (.rule (p.apply r)) ∧
          s.updateRule id p = (true, s.commit t)) := by
  cases hr : s.tree.findRule? id with
  | none => exact .inl ⟨rfl, by simp [updateRule, hr]⟩
  | some r =>
    obtain ⟨path, hfirst⟩ := Group.first?_of_findRule? hr
    refine .inr ⟨path, r, hfirst, ?_⟩
    cases he : p.apply r == r with
    | true => exact .inl ⟨rfl, by simp [updateRule, hr, he]⟩
    | false =>
      obtain ⟨t, ht, hnode⟩ := Group.modifyRule?_of_first? hfirst fun _ => p.apply r
      exact .inr ⟨rfl, t, hnode, by simp [updateRule, hr, he, ht, commit?]⟩

/-- A change of a group misses, or hits without effect, or publishes the tree with the group
changed. -/
theorem updateGroup_cases (s : Store) (id : String) (p : GroupPatch) :
    (s.tree.findGroup? id = none ∧ s.updateGroup id p = (false, s)) ∨
    ∃ path, ∃ g : Tree, s.tree.first? id = some ⟨path, g.toNode⟩ ∧
      (p.combinator.any (· ≠ g.combinator) = false ∧ s.updateGroup id p = (true, s) ∨
        p.combinator.any (· ≠ g.combinator) = true ∧ ∃ t : Tree,
          t.toNode = s.tree.toNode.replaceAt path (p.apply g).toNode ∧
          s.updateGroup id p = (true, s.commit t)) := by
  cases hg : s.tree.findGroup? id with
  | none => exact .inl ⟨rfl, by simp only [updateGroup, hg]⟩
  | some g =>
    obtain ⟨path, hfirst⟩ := Group.first?_of_findGroup? hg
    refine .inr ⟨path, g, hfirst, ?_⟩
    cases hc : p.combinator.any (· ≠ g.combinator) with
    | false => exact .inl ⟨rfl, by simp only [updateGroup, hg, hc]; rfl⟩
    | true =>
      obtain ⟨t, ht, hnode⟩ := Group.modifyGroup?_of_first? hfirst p.apply
      exact .inr ⟨rfl, t, hnode, by simp only [updateGroup, hg, hc, ht]; rfl⟩

/-- A removal finds nothing, or publishes the tree without what it answers. -/
theorem remove_cases (s : Store) (id : String) (kind : Option Kind) :
    s.remove id kind = (none, s) ∨
    ∃ n t, s.tree.contains id = true ∧ s.tree.remove? id kind = some (n, t) ∧
      s.remove id kind = (some n, s.commit t) := by
  cases hc : s.tree.contains id with
  | false => exact .inl (by simp [remove, hc])
  | true =>
    cases hr : s.tree.remove? id kind with
    | none => exact .inl (by simp [remove, hc, hr])
    | some q => exact .inr ⟨q.1, q.2, rfl, rfl, by simp [remove, hc, hr]⟩

/-- A tree is put in place unless it equals the one that stands there. -/
theorem replace_cases (s : Store) (t : Tree) :
    (s.tree == t) = true ∧ s.replace t = s ∨ (s.tree == t) = false ∧ s.replace t = s.commit t := by
  cases he : s.tree == t with
  | true => exact .inl ⟨rfl, by simp [replace, he]⟩
  | false => exact .inr ⟨rfl, by simp [replace, he]⟩

end Store

/-- The command that takes out a node of an accepted kind. -/
def Command.removing (id : String) : Option Kind → Command
  | some .rule => .removeRule id
  | some .group => .removeGroup id
  | none => .removeNode id

theorem Store.run_removing (s : Store) (id : String) (kind : Option Kind) :
    s.run (.removing id kind) = (.removed (s.remove id kind).1, (s.remove id kind).2) := by
  cases kind with
  | none => rfl
  | some kind => cases kind <;> rfl

end Sieve
