import Mathlib.Data.List.Basic
import Sieve.Proofs.Filter.Denotation
import Sieve.Proofs.Tree.Graft

/-!
# What passes when a tree changes

No group turns the truth of a child into its opposite.  A change that lets fewer items pass one node
therefore lets fewer items pass the whole tree, whatever stands above that node.

* `Combinator.verdict`: the truth of a group from those of its children (`Evaluator.truth_group`);
* `Evaluator.truth_replaceAt`: the truth of a tree follows that of a node in it;
* `Evaluator.filter_narrows`, `Evaluator.filter_widens`: one child more narrows what passes if the group is
  an `and` or had no child, and widens it if the group is an `or` that had one.
-/

namespace Sieve

variable {ι : Type}

namespace Combinator

/-- The truth of a group from those of its children.  Without children a group holds. -/
def verdict (c : Combinator) (bs : List Bool) : Bool :=
  bs.isEmpty || match c with
    | .and => bs.all id
    | .or => bs.any id
    | .other _ _ => false

variable {c : Combinator} {before after : List Bool} {a b : Bool}

/-- Letting a child hold does not stop a group from holding. -/
theorem verdict_mono (h : a = true → b = true) (hv : c.verdict (before ++ a :: after) = true) :
    c.verdict (before ++ b :: after) = true := by
  cases c with
  | and =>
    obtain ⟨hbefore, ha, hafter⟩ : _ ∧ a = true ∧ _ := by simpa [verdict] using hv
    simpa [verdict] using ⟨hbefore, h ha, hafter⟩
  | or =>
    have hsome : true ∈ before ∨ a = true ∨ true ∈ after := by simpa [verdict] using hv
    simpa [verdict] using hsome.imp_right (Or.imp_left h)
  | other name ho => simp [verdict] at hv

/-- An `and`, or a group without another child, that holds with a child holds without it. -/
theorem verdict_of_more (hc : c = .and ∨ before ++ after = [])
    (hv : c.verdict (before ++ b :: after) = true) : c.verdict (before ++ after) = true := by
  rcases hc with rfl | hnil
  · obtain ⟨hbefore, -, hafter⟩ : (∀ x ∈ before, x = true) ∧ b = true ∧ ∀ x ∈ after, x = true := by
      simpa [verdict] using hv
    have hall : ∀ x ∈ before ++ after, id x = true := List.forall_mem_append.2 ⟨hbefore, hafter⟩
    rw [verdict, List.all_eq_true.2 hall, Bool.or_true]
  · rw [hnil]
    rfl

/-- An `or` with another child that holds without a child holds with it. -/
theorem verdict_of_fewer (hne : before ++ after ≠ [])
    (hv : Combinator.or.verdict (before ++ after) = true) :
    Combinator.or.verdict (before ++ b :: after) = true := by
  have hsome : true ∈ before ++ after := by
    simpa [verdict, List.isEmpty_eq_false_iff.2 hne] using hv
  rcases List.mem_append.1 hsome with hmem | hmem <;> simp [verdict, hmem]

end Combinator

namespace Evaluator

variable (e : Evaluator) (item : Json)

/-- The truth of a group is told by those of its children. -/
theorem truth_group (i : ι) (c : Combinator) (cs : List (Node ι)) :
    e.truth item (.group i c cs) = c.verdict (cs.map (e.truth item)) := by
  cases cs with
  | nil =>
    rw [truth]
    rfl
  | cons n ns =>
    cases c with
    | and =>
      rw [truth, truths_eq_map]
      rfl
    | or =>
      rw [truth, truths_eq_map]
      rfl
    | other =>
      rw [truth]
      rfl

/-- An item that passes a tree passes it too with another node in a place, if it passes that node when it
passes the one before. -/
theorem truth_replaceAt {a b : Node ι} (h : e.truth item a = true → e.truth item b = true) (n : Node ι)
    (path : List Nat) (hn : e.truth item (n.replaceAt path a) = true) :
    e.truth item (n.replaceAt path b) = true := by
  induction path generalizing n with
  | nil =>
    rw [Node.replaceAt_nil] at hn ⊢
    exact h hn
  | cons k path ih =>
    cases n with
    | rule r => exact hn
    | group i c cs =>
      rw [Node.replaceAt_group_cons] at hn ⊢
      cases hd : cs[k]? with
      | none =>
        -- the way leads nowhere
        have hk := List.getElem?_eq_none_iff.1 hd
        rwa [List.modify_eq_self hk] at hn ⊢
      | some d =>
        obtain ⟨before, after, rfl, -, hmodify⟩ := modify_of_getElem? hd
        rw [hmodify, truth_group, List.map_append, List.map_cons] at hn ⊢
        exact Combinator.verdict_mono (ih d) hn

variable {m o n : Node ι}

/-- An item that passes a tree with one child more passes it without that child, if the group is an `and` or
has no other child. -/
theorem truth_narrows (g : m.Graft o n) (hc : g.combinator = .and ∨ g.before ++ g.after = [])
    (h : e.truth item n = true) : e.truth item o = true := by
  obtain ⟨path, i, c, before, after, hwithout, rfl⟩ := g
  rw [← Node.replaceAt_self hwithout]
  refine e.truth_replaceAt item (fun hgroup => ?_) o path h
  rw [truth_group, List.map_append, List.map_cons] at hgroup
  rw [truth_group, List.map_append]
  refine Combinator.verdict_of_more (hc.imp_right fun hnil => ?_) hgroup
  rw [← List.map_append, hnil, List.map_nil]

/-- An item that passes a tree passes it with one child more, if the group is an `or` that has another
child. -/
theorem truth_widens (g : m.Graft o n) (hc : g.combinator = .or) (hne : g.before ++ g.after ≠ [])
    (h : e.truth item o = true) : e.truth item n = true := by
  obtain ⟨path, i, c, before, after, hwithout, rfl⟩ := g
  obtain rfl : c = .or := hc
  rw [← Node.replaceAt_self hwithout] at h
  refine e.truth_replaceAt item (fun hgroup => ?_) o path h
  rw [truth_group, List.map_append] at hgroup
  rw [truth_group, List.map_append, List.map_cons]
  refine Combinator.verdict_of_fewer (fun hnil => hne ?_) hgroup
  rwa [← List.map_append, List.map_eq_nil_iff] at hnil

/-- Where every item that passes one tree passes another, what passes the one is part of what passes the
other. -/
theorem filter_sublist {t u : Group ι}
    (h : ∀ item, e.truth item t.toNode = true → e.truth item u.toNode = true) (items : List Json) :
    (e.filter items t).Sublist (e.filter items u) := by
  refine List.monotone_filter_right items fun item hitem => ?_
  rw [tree, holds_node] at hitem ⊢
  exact h item hitem

/-- One child more in an `and`, or in a group without a child, narrows what passes. -/
theorem filter_narrows {t u : Group ι} (g : m.Graft t.toNode u.toNode)
    (hc : g.combinator = .and ∨ g.before ++ g.after = []) (items : List Json) :
    (e.filter items u).Sublist (e.filter items t) :=
  e.filter_sublist (fun item => e.truth_narrows item g hc) items

/-- One child more in an `or` that has a child widens what passes. -/
theorem filter_widens {t u : Group ι} (g : m.Graft t.toNode u.toNode) (hc : g.combinator = .or)
    (hne : g.before ++ g.after ≠ []) (items : List Json) :
    (e.filter items t).Sublist (e.filter items u) :=
  e.filter_sublist (fun item => e.truth_widens item g hc hne) items

end Evaluator

end Sieve
