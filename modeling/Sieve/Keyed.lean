/-!
# Lists of named things

A mapping from names to values is a list of pairs in increasing order of the names, compared by
code point, with one pair for each name.

* `insert` sets the value of a name and keeps the order; `lookup_insert` is its law;
* `ofList` sets the pairs of a list one after another, so a later pair wins;
* `erase` removes a name;
* `Increasing` says that a list is in order.  `increasing_insert`, `increasing_erase` and
  `increasing_ofList` say that the operations keep it so;
* `lookup_eq_find?`, `find?_of_perm` and `perm_insert` say what the operations do where the order of the
  pairs does not matter.
-/

namespace Sieve.Keyed

variable {α : Type}

/-- The value of a name. -/
def lookup (name : String) : List (String × α) → Option α
  | [] => none
  | (k, v) :: rest => if k = name then some v else lookup name rest

/-- Sets the value of a name. -/
def insert (name : String) (value : α) : List (String × α) → List (String × α)
  | [] => [(name, value)]
  | (k, v) :: rest =>
    if name < k then (name, value) :: (k, v) :: rest
    else if name = k then (name, value) :: rest
    else (k, v) :: insert name value rest

/-- Removes a name. -/
def erase (name : String) (members : List (String × α)) : List (String × α) :=
  members.filter (·.1 ≠ name)

/-- Sets the pairs of a list one after another. -/
def ofList (pairs : List (String × α)) : List (String × α) :=
  pairs.foldl (fun acc p => insert p.1 p.2 acc) []

/-- The names stand in increasing order. -/
def Increasing (members : List (String × α)) : Prop :=
  members.Pairwise (fun a b => a.1 < b.1)

theorem lookup_insert (name other : String) (value : α) (members : List (String × α)) :
    lookup other (insert name value members) =
      if name = other then some value else lookup other members := by
  induction members with
  | nil => simp [insert, lookup]
  | cons p rest ih =>
    obtain ⟨k, v⟩ := p
    by_cases hlt : name < k
    · simp [insert, lookup, hlt]
    · by_cases heq : name = k
      · subst heq
        by_cases ho : name = other <;> simp [insert, lookup, ho]
      · by_cases ho : name = other
        · subst ho
          simp [insert, lookup, hlt, heq, ih, Ne.symm heq]
        · simp [insert, lookup, hlt, heq, ih, ho]

theorem lookup_eq_none_of_lt {name : String} {members : List (String × α)}
    (h : ∀ p ∈ members, name < p.1) : lookup name members = none := by
  induction members with
  | nil => rfl
  | cons p rest ih =>
    have hp : p.1 ≠ name := fun he => String.lt_irrefl name (by simpa [he] using h p (by simp))
    simp only [lookup, if_neg hp]
    exact ih fun q hq => h q (List.mem_cons_of_mem _ hq)

theorem mem_of_lookup {name : String} {value : α} {members : List (String × α)}
    (h : lookup name members = some value) : (name, value) ∈ members := by
  induction members with
  | nil => cases h
  | cons p rest ih =>
    obtain ⟨k, v⟩ := p
    simp only [lookup] at h
    split at h
    next hk =>
      cases h
      rw [hk]
      exact List.mem_cons_self
    next => exact List.mem_cons_of_mem _ (ih h)

theorem length_insert {name : String} {value : α} {members : List (String × α)}
    (h : Increasing members) : (insert name value members).length =
      members.length + if (lookup name members).isSome then 0 else 1 := by
  induction members with
  | nil => rfl
  | cons p rest ih =>
    obtain ⟨k, v⟩ := p
    have hk := List.pairwise_cons.1 h
    simp only [insert]
    split
    next hlt =>
      have : lookup name ((k, v) :: rest) = none := lookup_eq_none_of_lt fun q hq => by
        rcases List.mem_cons.1 hq with rfl | hq
        · exact hlt
        · exact String.lt_trans hlt (hk.1 q hq)
      simp [this]
    next =>
      split
      next heq => simp [lookup, heq]
      next heq => simp [lookup, Ne.symm heq, ih hk.2]; omega

theorem mem_insert {name : String} {value : α} {p : String × α} {members : List (String × α)}
    (h : p ∈ insert name value members) : p = (name, value) ∨ p ∈ members := by
  induction members with
  | nil => simpa [insert] using h
  | cons q rest ih =>
    simp only [insert] at h
    split at h
    · simpa using h
    · split at h
      · rcases List.mem_cons.1 h with h | h
        · exact .inl h
        · exact .inr (List.mem_cons_of_mem _ h)
      · rcases List.mem_cons.1 h with h | h
        · exact .inr (h ▸ List.mem_cons_self)
        · exact (ih h).imp id (List.mem_cons_of_mem _)

theorem increasing_insert (name : String) (value : α) {members : List (String × α)}
    (h : Increasing members) : Increasing (insert name value members) := by
  induction members with
  | nil => simp [insert, Increasing]
  | cons p rest ih =>
    obtain ⟨k, v⟩ := p
    have hk := List.pairwise_cons.1 h
    simp only [insert]
    split
    next hlt =>
      refine List.pairwise_cons.2 ⟨fun q hq => ?_, h⟩
      rcases List.mem_cons.1 hq with rfl | hq
      · exact hlt
      · exact String.lt_trans hlt (hk.1 q hq)
    next hlt =>
      split
      next heq =>
        subst heq
        exact List.pairwise_cons.2 ⟨fun q hq => hk.1 q hq, hk.2⟩
      next heq =>
        refine List.pairwise_cons.2 ⟨fun q hq => ?_, ih hk.2⟩
        rcases mem_insert hq with rfl | hq
        · exact Decidable.byContradiction fun hn =>
            heq (String.le_antisymm (String.not_lt.1 hn) (String.not_lt.1 hlt))
        · exact hk.1 q hq

theorem increasing_filter (p : String × α → Bool) {members : List (String × α)}
    (h : Increasing members) : Increasing (members.filter p) := List.Pairwise.filter p h

theorem increasing_erase (name : String) {members : List (String × α)} (h : Increasing members) :
    Increasing (erase name members) := increasing_filter _ h

theorem increasing_ofList (pairs : List (String × α)) : Increasing (ofList pairs) := by
  suffices ∀ acc : List (String × α), Increasing acc →
      Increasing (pairs.foldl (fun acc p => insert p.1 p.2 acc) acc) from this [] List.Pairwise.nil
  induction pairs with
  | nil => exact fun _ h => h
  | cons p rest ih => exact fun acc h => ih _ (increasing_insert p.1 p.2 h)

/-! ### Without regard to the order -/

theorem lookup_eq_find? (name : String) (members : List (String × α)) :
    lookup name members = (members.find? (·.1 = name)).map Prod.snd := by
  induction members with
  | nil => rfl
  | cons p rest ih =>
    obtain ⟨k, v⟩ := p
    by_cases hk : k = name
    · simp [lookup, hk]
    · simp [lookup, hk, ih]

theorem nodup_of_increasing {members : List (String × α)} (h : Increasing members) :
    (members.map Prod.fst).Nodup := by
  refine List.pairwise_map.2 (h.imp ?_)
  intro p q hlt he
  exact String.lt_irrefl q.1 (he ▸ hlt)

/-- Where no name is repeated, every pair is the first of its name. -/
theorem find?_eq_some_iff {members : List (String × α)} (h : (members.map Prod.fst).Nodup)
    {name : String} {p : String × α} :
    members.find? (·.1 = name) = some p ↔ p ∈ members ∧ p.1 = name := by
  constructor
  · intro hp
    exact ⟨List.mem_of_find?_eq_some hp, by simpa using List.find?_some hp⟩
  · rintro ⟨hp, rfl⟩
    induction members with
    | nil => cases hp
    | cons q rest ih =>
      obtain ⟨hq, hrest⟩ := List.nodup_cons.1 h
      rcases List.mem_cons.1 hp with rfl | hp
      · simp
      · have hne : q.1 ≠ p.1 := fun he => hq (he ▸ List.mem_map_of_mem hp)
        simpa [hne] using ih hrest hp

theorem find?_of_perm {members others : List (String × α)} (hm : (members.map Prod.fst).Nodup)
    (h : members.Perm others) (name : String) :
    members.find? (·.1 = name) = others.find? (·.1 = name) := by
  have ho : (others.map Prod.fst).Nodup := (h.map Prod.fst).nodup_iff.1 hm
  apply Option.ext
  intro p
  rw [find?_eq_some_iff hm, find?_eq_some_iff ho, h.mem_iff]

theorem erase_eq_self {name : String} {members : List (String × α)}
    (h : ∀ p ∈ members, p.1 ≠ name) : erase name members = members :=
  List.filter_eq_self.2 fun p hp => decide_eq_true (h p hp)

/-- Setting the value of a name takes out the pair of that name and brings a new one. -/
theorem perm_insert (name : String) (value : α) {members : List (String × α)}
    (h : Increasing members) :
    (insert name value members).Perm (erase name members ++ [(name, value)]) := by
  induction members with
  | nil => exact List.Perm.refl _
  | cons p rest ih =>
    obtain ⟨k, v⟩ := p
    obtain ⟨hk, hrest⟩ := List.pairwise_cons.1 h
    simp only [insert]
    split
    next hlt =>
      have hlater : ∀ q ∈ (k, v) :: rest, name < q.1 := by
        intro q hq
        rcases List.mem_cons.1 hq with rfl | hq
        · exact hlt
        · exact String.lt_trans hlt (hk q hq)
      have hself : erase name ((k, v) :: rest) = (k, v) :: rest :=
        erase_eq_self fun q hq he => String.lt_irrefl q.1 (he ▸ hlater q hq)
      rw [hself]
      exact (List.perm_append_singleton _ _).symm
    next =>
      split
      next heq =>
        subst heq
        have hself : erase name ((name, v) :: rest) = rest := by
          have htail : erase name rest = rest :=
            erase_eq_self fun q hq he => String.lt_irrefl name (he ▸ hk q hq)
          simpa [erase] using htail
        rw [hself]
        exact (List.perm_append_singleton _ _).symm
      next heq =>
        have hhead : erase name ((k, v) :: rest) = (k, v) :: erase name rest := by
          simp [erase, Ne.symm heq]
        rw [hhead]
        exact (ih hrest).cons (k, v)

end Sieve.Keyed
