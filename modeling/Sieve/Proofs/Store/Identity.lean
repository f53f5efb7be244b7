import Sieve.Proofs.Store.Step
import Sieve.Proofs.Tree.Equality
import Sieve.Proofs.Tree.Outline

/-!
# Identity of nodes

The ids of a store's tree stay distinct as long as the supply gives no id away that has been seen
before.

* `Store.Opened`: the stores that are made of nothing, of a configuration, of a tree or of a text,
  with distinct ids;
* `Store.Unrepeated`: changes during which every id given away differs from all ids seen until then,
  and every tree put in place has distinct ids.  Ids of nodes that have been taken out still count as
  seen, and a tree put in place may bring them back;
* `Store.Spliced` is what a change does to the ids unless it puts a whole tree in place
  (`Store.spliced_run`), and `Store.nodup_run` is the step: distinct ids stay distinct;
* `Store.identity_runAll`: at every time no id is repeated, every node is found under its id where it
  stands, and the root has the id of the last tree put in place, or of the first tree.
-/

namespace Sieve

/-- The tree that a change puts in place as a whole. -/
def Command.replacement? : Command → Option Tree
  | .replace t => some t
  | _ => none

namespace Store

/-- A store just made, with distinct ids. -/
inductive Opened : Store → Prop
  | empty (ids : IdSupply) : Opened (Store.empty ids)
  | ofConfig (ids : IdSupply) (c : FilterConfig)
      (fresh : (ids.row c.initialDraft.nodeCount).Nodup) : Opened (Store.ofConfig ids c)
  | ofTree (ids : IdSupply) (t : Tree) (distinct : t.ids.Nodup) : Opened (Store.ofTree ids t)
  | ofText (ids : IdSupply) (text : String) (s : Store) (read : Store.ofText ids text = .ok s)
      (distinct : s.tree.ids.Nodup) : Opened s

theorem Opened.nodup {s : Store} (h : Opened s) : s.tree.ids.Nodup := by
  cases h with
  | empty ids =>
    show ((Group.draft .and).assign ids).1.ids.Nodup
    rw [(Group.assign_spec _ ids).1]
    simp [IdSupply.row, Group.nodeCount, Group.walk, Group.draft]
  | ofConfig ids c fresh =>
    show (c.initialDraft.assign ids).1.ids.Nodup
    rw [(Group.assign_spec _ ids).1]
    exact fresh
  | ofTree ids t distinct => exact distinct
  | ofText ids text s read distinct => exact distinct

/-- The ids that a change gives away. -/
def issued (s : Store) (c : Command) : List String :=
  s.ids.row ((s.run c).2.ids.used - s.ids.used)

/-- Changes that give no id away twice, where `seen` are the ids seen until now, and put only trees
with distinct ids in place. -/
def Unrepeated : List String → Store → List Command → Prop
  | _, _, [] => True
  | seen, s, c :: cs =>
    ((∀ t ∈ c.replacement?, t.ids.Nodup) ∧ (s.issued c).Nodup ∧ ∀ i ∈ s.issued c, i ∉ seen) ∧
      Unrepeated (seen ++ s.issued c ++ (s.run c).2.tree.ids) (s.run c).2 cs

instance decidableUnrepeated : ∀ seen s cs, Decidable (Unrepeated seen s cs)
  | _, _, [] => inferInstanceAs (Decidable True)
  | seen, s, c :: cs =>
    have := decidableUnrepeated (seen ++ s.issued c ++ (s.run c).2.tree.ids) (s.run c).2 cs
    inferInstanceAs (Decidable (_ ∧ _))

/-! ### One change -/

/-- Below the root a stretch of the ids has been cut out and the next ids of the supply have been put
in its place. -/
def Spliced (s s' : Store) : Prop :=
  ∃ (l m r : List String) (k : Nat), s.tree.ids = s.tree.id :: l ++ m ++ r ∧
    s'.tree.ids = s.tree.id :: l ++ s.ids.row k ++ r ∧ s'.ids = s.ids.after k

theorem Spliced.of_ids_eq {s s' : Store} (h : s'.tree.ids = s.tree.ids) (hi : s'.ids = s.ids) :
    s.Spliced s' :=
  ⟨s.tree.children.flatMap Node.ids, [], [], 0, by simp [Group.ids_eq],
    by simp [h, Group.ids_eq s.tree], hi⟩

theorem Spliced.refl (s : Store) : s.Spliced s := .of_ids_eq rfl rfl

/-- A node that gives way to one with the same ids changes no ids. -/
theorem ids_of_replaceAt {t u : Tree} {id : String} {site : Site String} {m : Node String}
    (h : t.first? id = some site) (hu : u.toNode = t.toNode.replaceAt site.path m)
    (hm : m.ids = site.node.ids) : u.ids = t.ids := by
  obtain ⟨l, r, ht, hr⟩ := Node.ids_replaceAt (Group.at?_of_first? h)
  rw [← Group.ids_toNode u, hu, hr, hm, ← ht, Group.ids_toNode]

theorem spliced_add (s : Store) (d : Node Unit) (p : Option String) :
    s.Spliced (s.ofAdded (s.add d p)).2 := by
  obtain ⟨-, he⟩ | ⟨path, g, t, hg, ht, he⟩ := s.add_cases d p <;> rw [he]
  · exact .refl s
  · obtain ⟨hd, hids⟩ := Node.assign_spec d s.ids
    obtain ⟨l, r, hs, hr⟩ := Node.ids_replaceAt (Group.at?_of_first? hg)
    have ht : t.ids = l ++ (g.ids ++ s.ids.row d.walk.length) ++ r := by
      rw [← Group.ids_toNode, ht, hr, Group.ids_toNode, Group.ids_push, hd]
    have hs : s.tree.ids = l ++ g.ids ++ r := hs
    -- the root stands in front of the group, or it is the group
    cases l with
    | nil =>
      rw [Group.ids_eq g] at hs ht
      have hroot : g.id = s.tree.id := by
        simpa [Group.ids_eq s.tree] using (congrArg List.head? hs).symm
      exact ⟨g.children.flatMap Node.ids, [], r, d.walk.length, by simpa [hroot] using hs,
        by simpa [ofAdded, hroot] using ht, hids⟩
    | cons i l =>
      have hroot : i = s.tree.id := by
        simpa [Group.ids_eq s.tree] using (congrArg List.head? hs).symm
      exact ⟨l ++ g.ids, [], r, d.walk.length, by simpa [hroot] using hs,
        by simpa [ofAdded, hroot] using ht, hids⟩

theorem spliced_updateRule (s : Store) (id : String) (p : RulePatch) :
    s.Spliced (s.updateRule id p).2 := by
  obtain ⟨-, he⟩ | ⟨path, r, hr, ⟨-, he⟩ | ⟨-, t, ht, he⟩⟩ := s.updateRule_cases id p <;> rw [he]
  · exact .refl s
  · exact .refl s
  · exact .of_ids_eq (ids_of_replaceAt hr ht rfl) rfl

theorem spliced_updateGroup (s : Store) (id : String) (p : GroupPatch) :
    s.Spliced (s.updateGroup id p).2 := by
  obtain ⟨-, he⟩ | ⟨path, g, hg, ⟨-, he⟩ | ⟨-, t, ht, he⟩⟩ := s.updateGroup_cases id p <;> rw [he]
  · exact .refl s
  · exact .refl s
  · exact .of_ids_eq (ids_of_replaceAt hg ht (GroupPatch.ids_apply p g)) rfl

theorem spliced_remove (s : Store) (id : String) (kind : Option Kind) :
    s.Spliced (s.remove id kind).2 := by
  obtain he | ⟨n, t, -, hr, he⟩ := s.remove_cases id kind <;> rw [he]
  · exact .refl s
  · obtain ⟨l, r, hs, ht⟩ := Group.ids_remove? hr
    exact ⟨l, n.ids, r, 0, hs, by simpa using ht, rfl⟩

theorem spliced_reset (s : Store) : s.Spliced s.reset := by
  obtain ⟨-, he⟩ | ⟨-, he⟩ := s.replace_cases { s.tree with children := [] } <;> rw [reset, he]
  · exact .refl s
  · exact ⟨[], s.tree.children.flatMap Node.ids, [], 0, by simp [Group.ids_eq],
      by simp [Group.ids_eq], rfl⟩

/-- A change that puts no whole tree in place splices the ids. -/
theorem spliced_run (s : Store) {c : Command} (h : c.replacement? = none) :
    s.Spliced (s.run c).2 := by
  cases c with
  | addRule d p => exact spliced_add s (.rule d) p
  | addGroup d p => exact spliced_add s d.toNode p
  | updateRule id p => exact spliced_updateRule s id p
  | updateGroup id p => exact spliced_updateGroup s id p
  | removeRule id => exact spliced_remove s id (some .rule)
  | removeGroup id => exact spliced_remove s id (some .group)
  | removeNode id => exact spliced_remove s id none
  | replace t => cases h
  | reset => exact spliced_reset s

theorem command_eq_replace {c : Command} {t : Tree} (h : c.replacement? = some t) :
    c = .replace t := by
  cases c <;> cases h
  rfl

/-- The root keeps its id until a tree is put in place, and then has the id of that tree. -/
theorem id_run (s : Store) (c : Command) :
    (s.run c).2.tree.id = (c.replacement?.map Group.id).getD s.tree.id := by
  cases h : c.replacement? with
  | none =>
    obtain ⟨l, m, r, k, -, h', -⟩ := spliced_run s h
    simpa [Group.ids_eq] using congrArg List.head? h'
  | some t =>
    rw [command_eq_replace h]
    show (s.replace t).tree.id = t.id
    obtain ⟨he, hr⟩ | ⟨-, hr⟩ := s.replace_cases t <;> rw [hr]
    · -- nothing has been put in place, but only because the tree equals the one that stands there
      simpa [Group.ids_eq] using congrArg List.head? (Group.ids_of_beq he)
    · rfl

/-- Distinct ids stay distinct if no id is given away that stands in the tree, and no tree with a
repeated id is put in place. -/
theorem nodup_run {s : Store} {c : Command} (hs : s.tree.ids.Nodup)
    (hr : ∀ t ∈ c.replacement?, t.ids.Nodup) (hn : (s.issued c).Nodup)
    (hf : ∀ i ∈ s.issued c, i ∉ s.tree.ids) : (s.run c).2.tree.ids.Nodup := by
  cases h : c.replacement? with
  | none =>
    obtain ⟨l, m, r, k, he, he', hk⟩ := spliced_run s h
    have hissued : s.issued c = s.ids.row k := by simp [issued, hk, IdSupply.after]
    rw [hissued] at hn hf
    rw [he] at hs hf
    rw [he']
    -- what has been cut out does not matter: the new ids must not stand before or after it
    simp only [List.nodup_append, List.mem_append, List.mem_cons] at hs hf ⊢
    refine ⟨⟨hs.1.1, hn, ?_⟩, hs.2.1, ?_⟩
    · rintro a ha b hb rfl
      exact hf a hb (.inl (.inl ha))
    · rintro a (ha | ha) b hb
      · exact hs.2.2 a (.inl ha) b hb
      · rintro rfl
        exact hf a ha (.inr hb)
  | some t =>
    rw [command_eq_replace h]
    show (s.replace t).tree.ids.Nodup
    obtain ⟨-, he⟩ | ⟨-, he⟩ := s.replace_cases t <;> rw [he]
    · exact hs
    · exact hr t h

/-! ### Any number of changes -/

/-- Distinct ids stay distinct during changes that give no id away twice. -/
theorem nodup_runAll {seen : List String} {s : Store} {cs : List Command} (hs : s.tree.ids.Nodup)
    (hseen : s.tree.ids ⊆ seen) (h : Unrepeated seen s cs) : (s.runAll cs).tree.ids.Nodup := by
  induction cs generalizing s seen with
  | nil => exact hs
  | cons c cs ih =>
    obtain ⟨⟨hr, hn, hf⟩, h⟩ := h
    have hs' := nodup_run hs hr hn fun i hi hm => hf i hi (hseen hm)
    exact ih hs' (List.subset_append_right _ _) h

theorem id_runAll (s : Store) (cs : List Command) :
    (s.runAll cs).tree.id =
      ((cs.filterMap Command.replacement?).getLast?.map Group.id).getD s.tree.id := by
  induction cs generalizing s with
  | nil => rfl
  | cons c cs ih =>
    show ((s.run c).2.runAll cs).tree.id = _
    rw [ih, id_run]
    cases h : c.replacement? with
    | none => simp [h]
    | some t =>
      rw [List.filterMap_cons_some h, List.getLast?_cons]
      cases (cs.filterMap Command.replacement?).getLast? <;> rfl

/-- **At every time no id is repeated, every node is found under its id where it stands, and the root
has the id of the last tree put in place, or of the first tree.** -/
theorem identity_runAll {s : Store} (hs : s.Opened) {cs : List Command}
    (h : s.Unrepeated s.tree.ids cs) :
    (s.runAll cs).tree.ids.Nodup ∧
      (∀ n ∈ (s.runAll cs).tree.walk, (s.runAll cs).tree.find? n.id = some n) ∧
      (s.runAll cs).tree.id =
        ((cs.filterMap Command.replacement?).getLast?.map Group.id).getD s.tree.id := by
  have hn := nodup_runAll hs.nodup (List.Subset.refl _) h
  exact ⟨hn, fun n hw => Group.find?_of_nodup hn hw, id_runAll s cs⟩

/-- A supply of six ids. -/
def sixIds : IdSupply := ⟨fun n => ["a", "b", "c", "d", "e", "f"].getD n "", 0⟩

/-- A group with a rule comes in, the rule is taken out, a tree that has its id again is put in place, and
a rule comes in below the node of that id. -/
def comingAndGoing : List Command :=
  [.addGroup { Group.draft .or with children := [.rule (Rule.draft "age" "gt" "number")] } none,
   .removeNode "c",
   .replace ⟨"x", .and, [.group "c" .or [], .rule ⟨"y", "abv", "lt", .nat 5, "number", none⟩]⟩,
   .addRule (Rule.draft "style" "eq" "select") (some "c")]

theorem identity_comingAndGoing :
    (Store.empty sixIds).Opened ∧
      (Store.empty sixIds).Unrepeated (Store.empty sixIds).tree.ids comingAndGoing ∧
      ((Store.empty sixIds).runAll comingAndGoing).tree.ids = ["x", "c", "d", "y"] ∧
      ((Store.empty sixIds).runAll comingAndGoing).tree.ids.Nodup := by
  have h : (Store.empty sixIds).Unrepeated (Store.empty sixIds).tree.ids comingAndGoing := by decide
  exact ⟨.empty sixIds, h, by decide, (identity_runAll (.empty sixIds) h).1⟩

end Store

end Sieve
