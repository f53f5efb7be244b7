import Sieve.Proofs.Filter.Comparison
import Sieve.Proofs.Text.Parts

/-!
# Texts that contain others

Field and value are put into lower case each for itself, and then the one is looked for in the other.  So a
value that stands in the field as it is can be missed: a `Σ` that ends a word in the value need not end one in
the field.

* `Operator.relates_contains_iff`: what is found are the lower-case forms;
* `Operator.contains_occurrences`: where a value that stands in the field is found, and which values are found in
  every field in which they stand;
* `Operator.contains_missed`: a beginning of a name that is not found.
-/

namespace Sieve.Operator

open Text

theorem relates_contains_iff (s n : String) :
    contains.Relates (.str s) (.str n) ↔ lowercase n.toList <:+: lowercase s.toList :=
  occursIn_iff _ _

/-- A value is found where it is kept. -/
theorem relates_contains_of_kept {s n : String} {a b : List Char} (hs : s.toList = a ++ n.toList ++ b)
    (h : Kept a n.toList b) : contains.Relates (.str s) (.str n) := by
  rw [relates_contains_iff, hs]
  exact infix_lowercase_of_kept h

/-- **A value that stands in a field is found there unless a `Σ` of it has another form there.**

* It is found where its `Σ`s have the forms that they have in the value alone;
* so it is found if it has no `Σ`, and where no letter with case adjoins it;
* it is found in every field in which it stands just if none of its `Σ`s is loose. -/
theorem contains_occurrences (s n : String) :
    (∀ a b, s.toList = a ++ n.toList ++ b → Kept a n.toList b → contains.Relates (.str s) (.str n)) ∧
    (n.toList <:+: s.toList → 'Σ' ∉ n.toList → contains.Relates (.str s) (.str n)) ∧
    (∀ a b, s.toList = a ++ n.toList ++ b → meetsCased a.reverse = false → meetsCased b = false →
      contains.Relates (.str s) (.str n)) ∧
    ((∀ t : String, n.toList <:+: t.toList → contains.Relates (.str t) (.str n)) ↔
      ∀ p q, n.toList = p ++ 'Σ' :: q → ¬ Loose p.reverse q) := by
  refine ⟨fun a b hs => relates_contains_of_kept hs, ?_, fun a b hs ha hb => ?_, ?_, ?_⟩
  · rintro ⟨a, b, hs⟩ hn
    exact relates_contains_of_kept hs.symm (kept_of_notMem hn a b)
  · exact relates_contains_of_kept hs (kept_of_apart ha hb n.toList)
  · intro hall p q hn hloose
    obtain ⟨a, b, hmissed⟩ := exists_turned hloose
    have hfound := hall (String.ofList (a ++ n.toList ++ b)) (by simp)
    rw [relates_contains_iff, String.toList_ofList, hn] at hfound
    exact hmissed hfound
  · rintro hloose t ⟨a, b, ht⟩
    exact relates_contains_of_kept ht.symm (kept_of_not_loose hloose a b)

/-- A word of its own is found, so is a text in which a letter has a longer form, and the beginning of a name is
found in whatever field it stands. -/
theorem contains_occurrences_names :
    contains.Relates (.str "ΟΔΥΣ, ΗΡΩΣ") (.str "ΟΔΥΣ") ∧ contains.Relates (.str "AİSẞZ") (.str "İSẞ") ∧
    ∀ t : String, "ΣΙΔ".toList <:+: t.toList → contains.Relates (.str t) (.str "ΣΙΔ") := by
  obtain ⟨-, -, hapart, -⟩ := contains_occurrences "ΟΔΥΣ, ΗΡΩΣ" "ΟΔΥΣ"
  obtain ⟨-, hplain, -, -⟩ := contains_occurrences "AİSẞZ" "İSẞ"
  obtain ⟨-, -, -, hall⟩ := contains_occurrences "ΣΙΔ" "ΣΙΔ"
  refine ⟨hapart [] ", ΗΡΩΣ".toList rfl (by decide +kernel) (by decide +kernel),
    hplain (by decide +kernel) (by decide +kernel), hall.2 ?_⟩
  have hletters : "ΣΙΔ".toList = ['Σ', 'Ι', 'Δ'] := by decide
  rintro (_ | ⟨c, p⟩) q hn <;> rw [hletters] at hn
  · cases hn
    decide +kernel
  · have hmem : 'Σ' ∈ ['Ι', 'Δ'] := (List.cons.inj hn).2 ▸ List.mem_append_cons_self
    exact absurd hmem (by decide)

/-- The name begins with the value, and the value is not found in it. -/
theorem contains_missed :
    "ΟΔΥΣ".toList <:+: "ΟΔΥΣΣΕΑΣ".toList ∧ ¬ contains.Relates (.str "ΟΔΥΣΣΕΑΣ") (.str "ΟΔΥΣ") := by
  decide +kernel

end Sieve.Operator
