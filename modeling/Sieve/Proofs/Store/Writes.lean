import Sieve.Proofs.Store.Update
import Sieve.Proofs.Store.Version

/-!
# Writes

A write that would leave what is there is not made, and whether it would is asked of the equality of trees
and of rules.  Texts tell more than that equality, so a write can be passed over that would have changed
the text; this is so just if what is there and what is written are the same but for the signs of zeros.

* `Node.DiffersInZeros`: what equality does not tell apart and texts do;
* `Store.tree_replace`, `Store.replace_of_differsInZeros`: a tree that is put in place is there then, or
  nothing happens;
* `Store.writes_kept`: what stands in a store after a tree has been put in place, and under an id after a
  rule has been updated.
-/

namespace Sieve

/-! ### What equality does not see -/

namespace Node

/-- Two nodes that differ, but only in the signs of zeros. -/
def DiffersInZeros (m n : Node String) : Prop := m ≠ n ∧ m.unsignedZeros = n.unsignedZeros

/-- A tree differs in zeros from what it becomes when a node gives way just if the two nodes do. -/
theorem differsInZeros_replaceAt {n old : Node String} {path : List Nat} (h : n.at? path = some old)
    (m : Node String) : n.DiffersInZeros (n.replaceAt path m) ↔ old.DiffersInZeros m := by
  rw [DiffersInZeros, DiffersInZeros, ← beq_iff, ← beq_iff, beq_replaceAt h, Ne, eq_replaceAt_iff h]

end Node

namespace Store

variable {s : Store} {t : Tree}

/-- A tree that is put in place is there then, unless it differs in zeros from the one that was there. -/
theorem tree_replace (h : ¬ s.tree.toNode.DiffersInZeros t.toNode) : (s.replace t).tree = t := by
  obtain ⟨he, hr⟩ | ⟨-, hr⟩ := s.replace_cases t <;> rw [hr]
  · rw [Group.beq_eq_beq_toNode, Node.beq_iff] at he
    by_contra hne
    exact h ⟨fun hnode => hne (Group.toNode_injective hnode), he⟩
  · rfl

theorem replace_of_differsInZeros (h : s.tree.toNode.DiffersInZeros t.toNode) : s.replace t = s := by
  obtain ⟨-, hr⟩ | ⟨he, -⟩ := s.replace_cases t
  · exact hr
  · rw [Group.beq_eq_beq_toNode, (Node.beq_iff _ _).2 h.2] at he
    cases he

/-! ### What stands in a store after a write -/

/-- The text of the node that is found under an id. -/
def textOf? (s : Store) (id : String) : Option String :=
  (s.tree.find? id).map fun n => n.encode.indented

/-- **After a tree has been put in place the text of the store is the text of the tree, and after an update
has hit a rule the text under its id is the text of what the patch makes of the rule as it was.  The
exception is a write that would change nothing but signs of zeros: that one leaves the store as it is, with
another text.** -/
theorem writes_kept (s : Store) :
    (∀ t : Tree,
      (¬ s.tree.toNode.DiffersInZeros t.toNode → (s.replace t).text = t.encode.indented) ∧
      (s.tree.toNode.DiffersInZeros t.toNode →
        s.replace t = s ∧ (s.replace t).text ≠ t.encode.indented)) ∧
    ∀ (id : String) (p : RulePatch), (s.updateRule id p).1 = true →
      ∃ r : Rule String, s.tree.find? id = some (.rule r) ∧
        (¬ (Node.rule r).DiffersInZeros (.rule (p.apply r)) →
          (s.updateRule id p).2.textOf? id = some (Node.rule (p.apply r)).encode.indented) ∧
        ((Node.rule r).DiffersInZeros (.rule (p.apply r)) → (s.updateRule id p).2 = s ∧
          (s.updateRule id p).2.textOf? id ≠ some (Node.rule (p.apply r)).encode.indented) := by
  refine ⟨fun t => ⟨fun h => ?_, fun h => ?_⟩, fun id p hhit => ?_⟩
  · rw [text, tree_replace h]
  · rw [replace_of_differsInZeros h]
    exact ⟨rfl, fun htext => h.1 (congrArg Group.toNode (Group.indented_injective htext))⟩
  · obtain ⟨-, he⟩ | ⟨path, r, hr, -⟩ := s.updateRule_cases id p
    · rw [he] at hhit
      cases hhit
    · obtain ⟨t, ht, he⟩ := updateRule_of_first? hr p
      have hdiffers : s.tree.toNode.DiffersInZeros t.toNode ↔
          (Node.rule r).DiffersInZeros (.rule (p.apply r)) :=
        ht ▸ Node.differsInZeros_replaceAt (Group.at?_of_first? hr) _
      have hfound : s.tree.find? id = some (.rule r) := by rw [Group.find?_eq_first?, hr]; rfl
      refine ⟨r, hfound, fun h => ?_, fun h => ?_⟩
      · have hid : (Node.rule (p.apply r)).id = id := Group.id_of_first? hr
        have hnow := Group.first?_of_replaceAt hr ht hid
        rw [he, textOf?, tree_replace (hdiffers.not.2 h), Group.find?_eq_first?, hnow]
        rfl
      · rw [he, replace_of_differsInZeros (hdiffers.2 h), textOf?, hfound]
        exact ⟨rfl, fun htext => h.1 (Node.indented_injective (Option.some.inj htext))⟩

/-- A patch that asks for the other zero. -/
def otherZero : RulePatch := { value := some (.num (.real (.zero true))) }

/-- Nobody who asks for the other zero is heard. -/
theorem writes_lost_zeroStore :
    (zeroStore.replace (asksForZero true)).text ≠ (asksForZero true).encode.indented ∧
    (zeroStore.updateRule "r" otherZero).1 = true ∧
    ∃ r : Rule String, zeroStore.tree.find? "r" = some (.rule r) ∧
      (zeroStore.updateRule "r" otherZero).2.textOf? "r" ≠
        some (Node.rule (otherZero.apply r)).encode.indented :=
  ⟨by decide +kernel, by decide +kernel, ⟨"r", "a", "eq", .num (.real (.zero false)), "number", none⟩, rfl,
    by decide +kernel⟩

/-- Another tree is put in place, and another operator; the other zero is not, in a tree or in a patch. -/
theorem writes_kept_zeroStore :
    (¬ zeroStore.tree.toNode.DiffersInZeros crossedIds.toNode ∧
      (zeroStore.replace crossedIds).text = crossedIds.encode.indented) ∧
    (zeroStore.tree.toNode.DiffersInZeros (asksForZero true).toNode ∧
      zeroStore.replace (asksForZero true) = zeroStore) ∧
    ((zeroStore.updateRule "r" { op := some "ne" }).1 = true ∧
      (zeroStore.updateRule "r" { op := some "ne" }).2.textOf? "r" =
        some (Node.rule ⟨"r", "a", "ne", .num (.real (.zero false)), "number", none⟩).encode.indented) ∧
    (zeroStore.updateRule "r" otherZero).1 = true ∧
      (zeroStore.updateRule "r" otherZero).2 = zeroStore := by
  obtain ⟨hreplace, hupdate⟩ := writes_kept zeroStore
  have hother : ¬ zeroStore.tree.toNode.DiffersInZeros crossedIds.toNode := fun h => by
    cases h.2
  have hdiffer : asksForZero false ≠ asksForZero true := by simp [asksForZero, Binary64.zero]
  have hzero : zeroStore.tree.toNode.DiffersInZeros (asksForZero true).toNode :=
    ⟨fun h => hdiffer (Group.toNode_injective h), rfl⟩
  have hhit : (zeroStore.updateRule "r" { op := some "ne" }).1 = true := rfl
  have hhit' : (zeroStore.updateRule "r" otherZero).1 = true := by decide +kernel
  refine ⟨⟨hother, (hreplace _).1 hother⟩, ⟨hzero, ((hreplace _).2 hzero).1⟩, ⟨hhit, ?_⟩, hhit', ?_⟩
  · obtain ⟨r, hr, hkept, -⟩ := hupdate "r" _ hhit
    cases hr
    refine hkept fun h => ?_
    obtain ⟨-, -, hop, -⟩ := Rule.mk.inj (Node.rule.inj h.2)
    exact absurd hop (by decide)
  · obtain ⟨r, hr, -, hlost⟩ := hupdate "r" _ hhit'
    cases hr
    refine (hlost ⟨fun h => ?_, rfl⟩).1
    obtain ⟨-, -, -, hvalue, -⟩ := Rule.mk.inj (Node.rule.inj h)
    cases hvalue

end Store

end Sieve
