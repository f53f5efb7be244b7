import Sieve.Proofs.Store.Step

/-!
# Additions

An addition that has no place is refused and leaves everything as it is.  Any other addition brings
one node, as the last child of the parent, and moves nothing.

* `Group.destination?`: where an addition goes;
* `Command.adding`: the command that adds a draft, a rule or a group with everything below it;
* `Group.bare_at?_push`: a tree in which a group has one more child at the end is, at the end of every
  way that does not go through that child, what it was;
* `Session.insertion_exact`: both outcomes, for the store and for all that its users hold.
-/

namespace Sieve

/-- Where an addition goes: to the root if no parent is given, and else to the first node of the walk
that has the id of the parent. -/
def Group.destination? (t : Tree) : Option String → Option (Site String)
  | none => some ⟨[], t.toNode⟩
  | some id => t.first? id

theorem Group.destination?_eq_first? (t : Tree) (p : Option String) :
    t.destination? p = t.first? (p.getD t.id) := by
  cases p with
  | none => exact t.first?_root.symm
  | some id => rfl

/-- The command that adds a draft. -/
def Command.adding : Node Unit → Option String → Command
  | .rule r, p => .addRule r p
  | .group i c cs, p => .addGroup ⟨i, c, cs⟩ p

theorem Store.run_adding (s : Store) (d : Node Unit) (p : Option String) :
    s.run (.adding d p) = s.ofAdded (s.add d p) := by
  cases d <;> rfl

/-! ### One more child -/

/-- A group with one more child at the end holds of its own, and below its other children, what it
held. -/
theorem Group.bare_at?_push_self (g : Tree) (n : Node String) {other : List Nat}
    (h : ¬ [g.children.length] <+: other) :
    ((g.push n).toNode.at? other).map Node.bare = (g.toNode.at? other).map Node.bare := by
  cases other with
  | nil => rfl
  | cons k other =>
    have hk : k ≠ g.children.length := fun he => h (by simp [he])
    have hchild : (g.children ++ [n])[k]? = g.children[k]? := by
      rcases Nat.lt_or_ge k g.children.length with hlt | hge
      · exact List.getElem?_append_left hlt
      · rw [List.getElem?_eq_none (by simp; omega), List.getElem?_eq_none hge]
    show (((g.children ++ [n])[k]?).bind (Node.at? other)).map Node.bare = _
    rw [hchild]
    rfl

/-- A tree in which a group has one more child at the end is what it was, wherever a way does not go
through that child. -/
theorem Group.bare_at?_push {t : Node String} {g : Tree} {path : List Nat}
    (hg : t.at? path = some g.toNode) (n : Node String) {other : List Nat}
    (h : ¬ path ++ [g.children.length] <+: other) :
    ((t.replaceAt path (g.push n).toNode).at? other).map Node.bare = (t.at? other).map Node.bare := by
  by_cases hp : path <+: other
  · -- the way ends in the group or below it
    obtain ⟨further, rfl⟩ := hp
    have hfurther : ¬ [g.children.length] <+: further := fun hf =>
      h (List.prefix_append_right_inj path |>.2 hf)
    rw [Node.at?_append, Node.at?_replaceAt hg, Node.at?_append, hg]
    exact g.bare_at?_push_self n hfurther
  · exact Node.bare_at?_replaceAt hg _ hp

/-! ### Additions -/

/-- **An addition whose parent is no group is refused and changes nothing; any other brings one node,
which is the draft with ids, as the last child of the parent, and whatever stands elsewhere stays where
and what it is.** -/
theorem Session.insertion_exact (s : Session) (d : Node Unit) (p : Option String) :
    ((∀ site ∈ s.store.tree.destination? p, site.node.kind ≠ .group) →
      ∃ id, p = some id ∧
        s.step (.change (.adding d p)) = (.answer (.refused (.parentNotFound id)), s)) ∧
    ∀ path i c cs, s.store.tree.destination? p = some ⟨path, .group i c cs⟩ →
      ∃ (n : Node String) (t : Tree) (ids : IdSupply),
        s.step (.change (.adding d p)) =
          (.answer (.added n.id), { s with store := { s.store with ids := ids }.commit t }) ∧
        (s.step (.change (.adding d p))).2.store.version = s.store.version + 1 ∧
        n.eraseIds = d ∧
        t.toNode.at? path = some (.group i c (cs ++ [n])) ∧
        ∀ other, ¬ path ++ [cs.length] <+: other →
          (t.toNode.at? other).map Node.bare = (s.store.tree.toNode.at? other).map Node.bare := by
  have hstep : s.step (.change (.adding d p)) =
      (.answer (s.store.ofAdded (s.store.add d p)).1,
        { s with store := (s.store.ofAdded (s.store.add d p)).2 }) := by
    rw [Session.step, Store.run_adding]
  rw [hstep, Group.destination?_eq_first?]
  constructor
  · intro h
    obtain ⟨-, he⟩ | ⟨path, g, t, hg, -, -⟩ := s.store.add_cases d p
    · cases p with
      | none => exact absurd rfl (h _ s.store.tree.first?_root)
      | some id => exact ⟨id, rfl, by rw [he]; rfl⟩
    · exact absurd rfl (h _ hg)
  · intro path i c cs h
    obtain ⟨hnone, -⟩ | ⟨path', g, t, hg, ht, he⟩ := s.store.add_cases d p
    · have hfound := Group.findGroup?_of_first? (g := ⟨i, c, cs⟩) h
      exact absurd (hnone.symm.trans hfound) (by simp)
    · obtain ⟨rfl, hnode⟩ := Site.mk.inj (Option.some.inj (hg.symm.trans h))
      have hat := Group.at?_of_first? h
      rw [he]
      refine ⟨(d.assign s.store.ids).1, t, (d.assign s.store.ids).2, rfl, rfl,
        Node.eraseIds_assign d s.store.ids, ?_, fun other ho => ?_⟩
      · cases hnode
        rw [ht, Node.at?_replaceAt hat]
        rfl
      · cases hnode
        rw [ht]
        exact Group.bare_at?_push hat _ ho

/-- Two groups of one id, and a rule before them. -/
def twinGroups : Tree :=
  ⟨"root", .and, [.rule ⟨"r", "age", "gt", .nat 5, "number", none⟩,
    .group "g" .or [.group "h" .and []], .group "g" .and []]⟩

/-- A group with a rule in it. -/
def nestedDraft : Node Unit := .group () .or [.rule (Rule.draft "style" "eq" "select")]

/-- Somebody who watches a store of the twin groups. -/
def twinSession : Session :=
  ({ store := .ofTree ⟨fun n => ["a", "b"].getD n "", 0⟩ twinGroups } : Session).subscribe "w"

theorem Session.insertion_twinGroups :
    ((∀ site ∈ twinGroups.destination? (some "r"), site.node.kind ≠ .group) ∧
      ∃ id, some "r" = some id ∧ twinSession.step (.change (.adding nestedDraft (some "r"))) =
        (.answer (.refused (.parentNotFound id)), twinSession)) ∧
    twinGroups.destination? (some "g") = some ⟨[1], .group "g" .or [.group "h" .and []]⟩ ∧
      ∃ t : Tree, (twinSession.step (.change (.adding nestedDraft (some "g")))).2.store.tree = t ∧
        t.toNode.at? [1] = some (.group "g" .or [.group "h" .and [],
          .group "a" .or [.rule ⟨"b", "style", "eq", .null, "select", none⟩]]) ∧
        ∀ other, ¬ [1, 1] <+: other →
          (t.toNode.at? other).map Node.bare = (twinGroups.toNode.at? other).map Node.bare := by
  have hr : ∀ site ∈ twinGroups.destination? (some "r"), site.node.kind ≠ .group := by decide
  have hg : twinGroups.destination? (some "g") =
      some ⟨[1], .group "g" .or [.group "h" .and []]⟩ := rfl
  obtain ⟨n, t, ids, hstep, -, -, hat, hother⟩ :=
    (Session.insertion_exact twinSession nestedDraft (some "g")).2 [1] "g" .or _ hg
  have ht : (twinSession.step (.change (.adding nestedDraft (some "g")))).2.store.tree = t := by
    rw [hstep]
    rfl
  refine ⟨⟨hr, (Session.insertion_exact twinSession nestedDraft (some "r")).1 hr⟩, hg, t, ht, ?_, hother⟩
  rw [← ht]
  rfl

end Sieve
