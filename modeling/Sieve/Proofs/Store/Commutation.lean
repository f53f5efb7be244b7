import Sieve.Proofs.Store.Publication
import Sieve.Proofs.Tree.Edit

/-!
# Changes in any order

Changes and removals of single nodes can be made in any order, and a second time without effect, as long
as no id is repeated.

Each of them looks for the first node of an id in the tree that it finds, and a change before it may have
moved that node, taken it out or left it where it was.  But where no id is repeated it does to the tree what
an edit of all nodes does, and edits do not look where a node stands.

* `Command.updated?`, `Command.removed?`: the node that a command changes or takes out;
* `Command.edit?`: the edit that it amounts to (`Store.tree_run`);
* `Store.edits_commute`: any two of them in either order, and each of them twice.
-/

namespace Sieve

namespace Command

/-- The id of the node that a command changes. -/
def updated? : Command → Option String
  | updateRule id _ => some id
  | updateGroup id _ => some id
  | _ => none

/-- The id of the node that a command takes out. -/
def removed? : Command → Option String
  | removeRule id => some id
  | removeGroup id => some id
  | removeNode id => some id
  | _ => none

/-- Whether a command changes or takes out a single node. -/
def isEdit (c : Command) : Bool := c.updated?.isSome || c.removed?.isSome

/-- The edit that a command amounts to if it changes or takes out a single node. -/
def edit? : Command → Option Edit
  | updateRule id p => some (.ofRulePatch id p)
  | updateGroup id p => some (.ofGroupPatch id p)
  | removeRule id => some (.removal id (some .rule))
  | removeGroup id => some (.removal id (some .group))
  | removeNode id => some (.removal id none)
  | _ => none

variable {c : Command} {e : Edit}

theorem isEdit_eq (c : Command) : c.isEdit = c.edit?.isSome := by
  cases c <;> rfl

/-- A command with an edit changes a rule, changes a group or takes out a node. -/
theorem edit_cases (h : c.edit? = some e) :
    (∃ id p, c = .updateRule id p ∧ e = .ofRulePatch id p) ∨
    (∃ id p, c = .updateGroup id p ∧ e = .ofGroupPatch id p) ∨
    ∃ id kind, c = .removing id kind ∧ e = .removal id kind := by
  cases c with
  | updateRule id p => cases h; exact .inl ⟨id, p, rfl, rfl⟩
  | updateGroup id p => cases h; exact .inr (.inl ⟨id, p, rfl, rfl⟩)
  | removeRule id => cases h; exact .inr (.inr ⟨id, some .rule, rfl, rfl⟩)
  | removeGroup id => cases h; exact .inr (.inr ⟨id, some .group, rfl, rfl⟩)
  | removeNode id => cases h; exact .inr (.inr ⟨id, none, rfl, rfl⟩)
  | addRule d p => cases h
  | addGroup d p => cases h
  | replace t => cases h
  | reset => cases h

/-- The edit of a command spares every node but the one that the command changes. -/
theorem spares_edit (h : c.edit? = some e) {i : String} (hi : c.updated? ≠ some i) : e.Spares i := by
  obtain ⟨id, p, rfl, rfl⟩ | ⟨id, p, rfl, rfl⟩ | ⟨id, kind, rfl, rfl⟩ := edit_cases h
  · exact Edit.spares_ofRulePatch p fun he => hi (congrArg some he.symm)
  · exact Edit.spares_ofGroupPatch p fun he => hi (congrArg some he.symm)
  · exact Edit.spares_removal id kind i

/-- A second time the edit of a command makes no difference. -/
theorem edit_andThen_self (h : c.edit? = some e) : e.andThen e = e := by
  obtain ⟨id, p, rfl, rfl⟩ | ⟨id, p, rfl, rfl⟩ | ⟨id, kind, rfl, rfl⟩ := edit_cases h
  · exact Edit.ofRulePatch_andThen_self id p
  · exact Edit.ofGroupPatch_andThen_self id p
  · exact Edit.removal_andThen_self id kind

end Command

namespace Store

variable {s : Store}

/-! ### What a command does to all nodes -/

/-- A change of a rule edits the rules of its id. -/
theorem tree_updateRule (hs : s.tree.ids.Nodup) (id : String) (p : RulePatch) :
    (s.updateRule id p).2.tree = s.tree.edited (.ofRulePatch id p) := by
  have hedited := fun {site} h => Group.edited_of_first? (s := site) (e := .ofRulePatch id p) hs h
    (fun _ _ => rfl) fun _ => Edit.leaves_ofRulePatch
  apply Group.toNode_injective
  obtain ⟨hnone, he⟩ | ⟨path, r, hr, ⟨hsame, he⟩ | ⟨hdiffer, t, ht, he⟩⟩ := s.updateRule_cases id p <;>
    rw [he]
  · -- there may be a group of the id, but no rule
    rw [Group.toNode_edited]
    refine (Node.edited_eq_self fun m hm => ?_).symm
    by_cases hid : m.id = id
    · have hfind := hid ▸ Group.find?_of_nodup hs hm
      cases m with
      | rule r => simp [Group.findRule?, hfind, Node.asRule?] at hnone
      | group i c cs => exact ⟨rfl, rfl⟩
    · exact Edit.leaves_ofRulePatch hid
  · have hown : (Edit.ofRulePatch id p).own (.rule r) = .rule r :=
      congrArg Node.rule (if_neg fun h => by simp [hsame] at h)
    rw [hedited hr, hown, Node.replaceAt_self (Group.at?_of_first? hr)]
  · have hid : r.id = id := Group.id_of_first? hr
    have hown : (Edit.ofRulePatch id p).own (.rule r) = .rule (p.apply r) :=
      congrArg Node.rule (if_pos ⟨hid, hdiffer⟩)
    rw [hedited hr, hown, tree_commit, ht]

/-- A change of a group edits the groups of its id. -/
theorem tree_updateGroup (hs : s.tree.ids.Nodup) (id : String) (p : GroupPatch) :
    (s.updateGroup id p).2.tree = s.tree.edited (.ofGroupPatch id p) := by
  have hedited := fun {site} h => Group.edited_of_first? (s := site) (e := .ofGroupPatch id p) hs h
    (fun _ _ => rfl) fun _ => Edit.leaves_ofGroupPatch
  have hown : ∀ {path} {g : Tree}, s.tree.first? id = some ⟨path, g.toNode⟩ →
      (Edit.ofGroupPatch id p).own g.toNode = (p.apply g).toNode := by
    intro path g hg
    have hid : g.id = id := Group.id_of_first? hg
    simp [Edit.own, Edit.ofGroupPatch, Group.toNode, GroupPatch.apply, hid]
  apply Group.toNode_injective
  obtain ⟨hnone, he⟩ | ⟨path, g, hg, ⟨hsame, he⟩ | ⟨hdiffer, t, ht, he⟩⟩ := s.updateGroup_cases id p <;>
    rw [he]
  · -- there may be a rule of the id, but no group
    rw [Group.toNode_edited]
    refine (Node.edited_eq_self fun m hm => ?_).symm
    by_cases hid : m.id = id
    · have hfind := hid ▸ Group.find?_of_nodup hs hm
      cases m with
      | rule r => exact ⟨rfl, rfl⟩
      | group i c cs => simp [Group.findGroup?, hfind, Node.asGroup?] at hnone
    · exact Edit.leaves_ofGroupPatch hid
  · rw [hedited hg, hown hg, GroupPatch.apply_eq_self hsame,
      Node.replaceAt_self (Group.at?_of_first? hg)]
  · rw [hedited hg, hown hg, tree_commit, ht]

/-- A removal takes out all nodes of its id and kind. -/
theorem tree_remove (hs : s.tree.ids.Nodup) (id : String) (kind : Option Kind) :
    (s.remove id kind).2.tree = s.tree.edited (.removal id kind) := by
  rw [remove]
  cases hc : s.tree.contains id with
  | true =>
    rw [Group.edited_removal hs]
    cases s.tree.remove? id kind <;> rfl
  | false =>
    have hid : id ∉ s.tree.ids := fun h => by simp [Group.contains_iff.2 h] at hc
    apply Group.toNode_injective
    refine (Node.edited_eq_self fun m hm => Edit.leaves_removal ?_).symm
    rintro rfl
    exact hid (Node.id_mem_ids hm)

/-- A command for a single node does to the tree what its edit does to all nodes. -/
theorem tree_run (hs : s.tree.ids.Nodup) {c : Command} {e : Edit} (h : c.edit? = some e) :
    (s.run c).2.tree = s.tree.edited e := by
  obtain ⟨id, p, rfl, rfl⟩ | ⟨id, p, rfl, rfl⟩ | ⟨id, kind, rfl, rfl⟩ := Command.edit_cases h
  · exact tree_updateRule hs id p
  · exact tree_updateGroup hs id p
  · rw [run_removing]
    exact tree_remove hs id kind

/-- Two commands for single nodes do what their two edits in one do. -/
theorem tree_run_run (hs : s.tree.ids.Nodup) {a b : Command} {e f : Edit} (ha : a.edit? = some e)
    (hb : b.edit? = some f) : ((s.run a).2.run b).2.tree = s.tree.edited (e.andThen f) := by
  have hfirst := tree_run hs ha
  have hnodup : (s.run a).2.tree.ids.Nodup := by
    rw [hfirst]
    exact Group.nodup_edited e hs
  rw [tree_run hnodup hb, hfirst, Group.edited_edited]

/-- A change that leaves the tree as it is leaves the store as it is. -/
theorem run_eq_self {c : Command} (h : (s.run c).2.tree = s.tree) : (s.run c).2 = s := by
  obtain he | ⟨ids, t, hne, he⟩ := s.publishes_run c
  · exact he
  · rw [he, tree_commit] at h
    rw [h, Group.beq_self] at hne
    cases hne

/-! ### Any order -/

/-- **Where no id is repeated, two commands that change or take out single nodes end in the same tree in
either order, unless both change one node, and each of them leaves everything as it is when it is given a
second time.** -/
theorem edits_commute (hs : s.tree.ids.Nodup) :
    (∀ a b : Command, a.isEdit = true → b.isEdit = true →
      (∀ i, ¬ (a.updated? = some i ∧ b.updated? = some i)) →
      ((s.run a).2.run b).2.tree = ((s.run b).2.run a).2.tree) ∧
    ∀ a : Command, a.isEdit = true → ((s.run a).2.run a).2 = (s.run a).2 := by
  constructor
  · intro a b ha hb hab
    rw [Command.isEdit_eq, Option.isSome_iff_exists] at ha hb
    obtain ⟨e, he⟩ := ha
    obtain ⟨f, hf⟩ := hb
    have hspares : ∀ i, e.Spares i ∨ f.Spares i := by
      intro i
      by_cases hi : a.updated? = some i
      · exact .inr (Command.spares_edit hf fun hb => hab i ⟨hi, hb⟩)
      · exact .inl (Command.spares_edit he hi)
    rw [tree_run_run hs he hf, tree_run_run hs hf he, Edit.andThen_comm hspares]
  · intro a ha
    rw [Command.isEdit_eq, Option.isSome_iff_exists] at ha
    obtain ⟨e, he⟩ := ha
    apply run_eq_self
    rw [tree_run_run hs he he, Command.edit_andThen_self he, tree_run hs he]

/-- A group of a rule and an empty group, and a rule beside it. -/
def familyTree : Tree :=
  ⟨"root", .and, [.group "g" .or [.rule ⟨"r", "age", "gt", .nat 5, "number", none⟩, .group "h" .and []],
    .rule ⟨"q", "style", "eq", .str "ipa", "select", none⟩]⟩

/-- A store of this tree. -/
def familyStore : Store := .ofTree ⟨fun _ => "", 0⟩ familyTree

/-- A change of a rule, and the removal of the group in which it stands. -/
theorem edits_commute_familyStore :
    familyStore.tree.ids.Nodup ∧
      ((familyStore.run (.updateRule "r" { op := some "lt" })).2.run (.removeNode "g")).2.tree =
        ((familyStore.run (.removeNode "g")).2.run (.updateRule "r" { op := some "lt" })).2.tree ∧
      ((familyStore.run (.removeNode "g")).2.run (.updateRule "r" { op := some "lt" })).2.tree.ids =
        ["root", "q"] ∧
      ((familyStore.run (.removeNode "g")).2.run (.removeNode "g")).2.version = 1 := by
  have hs : familyStore.tree.ids.Nodup := by decide
  obtain ⟨hany, htwice⟩ := edits_commute hs
  refine ⟨hs, hany _ _ rfl rfl fun i h => by simp [Command.updated?] at h, by decide, ?_⟩
  rw [htwice _ rfl]
  decide

end Store

end Sieve
