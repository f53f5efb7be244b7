import Sieve.Proofs.Store.Publication
import Sieve.Proofs.Tree.CacheKey

/-!
# What the version tells

Whether a change publishes something is decided by the equality of rules, of combinators, of trees, or by
whether a node was found.  The text of a store is finer than the equality of trees, for which the two
zeros are the same; still the version moves exactly with the text:

* what is published differs from the tree before by the equality of trees, so it has another text too;
* what is not published is not kept either, so the text stays, also where the other zero was asked for.

`Store.version_run` says this of one change, and `Store.version_tells_text` of all that come after each
other.
-/

namespace Sieve

/-- A tree tells another text than one that it differs from. -/
theorem Group.indented_ne_of_beq {t u : Tree} (h : (t == u) = false) :
    u.encode.indented ≠ t.encode.indented := by
  intro he
  have hsame : u = t := Group.indented_injective he
  rw [hsame, Group.beq_self] at h
  cases h

namespace Store

/-- The number of changes that leave another text than they find. -/
def rewordings : Store → List Command → Nat
  | _, [] => 0
  | s, c :: cs => (if (s.run c).2.text = s.text then 0 else 1) + rewordings (s.run c).2 cs

/-- A change that publishes nothing leaves the text, and one that publishes a tree changes it. -/
theorem Publishes.version_eq {s s' : Store} (h : s.Publishes s') :
    s'.version = s.version + if s'.text = s.text then 0 else 1 := by
  rcases h with rfl | ⟨ids, t, hne, rfl⟩
  · rw [if_pos rfl, Nat.add_zero]
  · have htext : (Store.commit { s with ids := ids } t).text ≠ s.text := Group.indented_ne_of_beq hne
    rw [if_neg htext]
    rfl

theorem version_run (s : Store) (c : Command) :
    (s.run c).2.version = s.version + if (s.run c).2.text = s.text then 0 else 1 :=
  (s.publishes_run c).version_eq

/-- The version counts the changes of the text. -/
theorem version_runAll (s : Store) (cs : List Command) :
    (s.runAll cs).version = s.version + s.rewordings cs := by
  induction cs generalizing s with
  | nil => rfl
  | cons c cs ih =>
    show ((s.run c).2.runAll cs).version = _
    rw [ih, version_run, rewordings, Nat.add_assoc]

/-- **A change leaves the version as it is or makes it larger by one, and it makes it larger just if the
text after the change differs from the text before.  So the version of a store grows by the number of
times that its text has become a different one.** -/
theorem version_tells_text (s : Store) (c : Command) (run : List Command) :
    ((s.run c).2.version = s.version ∨ (s.run c).2.version = s.version + 1) ∧
    (s.version < (s.run c).2.version ↔ (s.run c).2.text ≠ s.text) ∧
    (s.runAll run).version = s.version + s.rewordings run := by
  have hversion := s.version_run c
  refine ⟨?_, ?_, s.version_runAll run⟩
  · split at hversion <;> omega
  · constructor
    · intro hlt he
      rw [if_pos he] at hversion
      omega
    · intro hne
      rw [if_neg hne] at hversion
      omega

/-- A store of a rule about the zero that is not negative. -/
def zeroStore : Store := .ofTree ⟨fun _ => "", 0⟩ (asksForZero false)

/-- The other zero has another text, and whoever asks for it is not heard. -/
example : (asksForZero true).encode.indented ≠ zeroStore.text ∧
    (zeroStore.run (.replace (asksForZero true))).2.version = zeroStore.version ∧
    (zeroStore.run (.replace (asksForZero true))).2.text = zeroStore.text := by
  decide +kernel

end Store

end Sieve
