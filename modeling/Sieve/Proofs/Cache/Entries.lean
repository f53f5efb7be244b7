import Sieve.Cache

/-!
# What is in a cache

Nothing is in a cache but what has been written to it: a look throws away at most the value that was
looked for, and a write brings at most the value that is written.  So a property of keys and values
that all written values have is a property of all values that are found (`Cache.Each`), whatever the
lifetime and the capacity are and whenever the cache is used.

Where nothing expires and there is room nothing gets lost either: a look changes nothing
(`Cache.get_of_lifetime_eq_none`), and a write only adds its value (`Cache.insert_of_size_lt`).
-/

namespace Sieve

namespace Cache

variable {α : Type} {p : String × Entry α} {c : Cache α}

theorem mem_invalidate {key : String} (h : p ∈ (c.invalidate key).entries) : p ∈ c.entries :=
  (List.mem_filter.1 h).1

theorem mem_purge {now : Nat} (h : p ∈ (c.purge now).entries) : p ∈ c.entries :=
  (List.mem_filter.1 h).1

theorem mem_evict (h : p ∈ c.evict.entries) : p ∈ c.entries := by
  unfold evict at h
  split at h
  next => exact h
  next => exact mem_invalidate h

theorem mem_makeRoom {now : Nat} (h : p ∈ (c.makeRoom now).entries) : p ∈ c.entries := by
  unfold makeRoom at h
  dsimp only at h
  split at h
  next => exact h
  next =>
    split at h
    next => exact mem_purge h
    next => exact mem_purge (mem_evict h)

theorem mem_get {now : Nat} {key : String} (h : p ∈ (c.get now key).2.entries) : p ∈ c.entries := by
  unfold get at h
  split at h
  next => exact h
  next =>
    split at h
    next => exact mem_invalidate h
    next => exact h

/-- A value that is found has been written under its key. -/
theorem mem_of_get {now : Nat} {key : String} {value : α} (h : (c.get now key).1 = some value) :
    ∃ since, (key, ⟨value, since⟩) ∈ c.entries := by
  unfold get at h
  split at h
  next => cases h
  next e he =>
    split at h
    next => cases h
    next =>
      cases h
      exact ⟨e.since, Keyed.mem_of_lookup he⟩

theorem mem_insert {now : Nat} {key : String} {value : α}
    (h : p ∈ (c.insert now key value).entries) : p = (key, ⟨value, now⟩) ∨ p ∈ c.entries := by
  rcases Keyed.mem_insert h with hp | hp
  · exact .inl hp
  · split at hp
    next => exact .inr hp
    next => exact .inr (mem_makeRoom hp)

/-- Without a lifetime a look finds what there is, and changes nothing. -/
theorem get_of_lifetime_eq_none (h : c.lifetime = none) (now : Nat) (key : String) :
    c.get now key = ((Keyed.lookup key c.entries).map Entry.value, c) := by
  have hfresh : ∀ e, c.isExpired now e = false := fun e => by rw [isExpired, h]; rfl
  unfold get
  split
  next hnone => rw [hnone]; rfl
  next e he =>
    rw [he, hfresh e]
    rfl

/-- Where there is room a write throws nothing away. -/
theorem insert_of_size_lt (h : c.size < c.capacity) (now : Nat) (key : String) (value : α) :
    c.insert now key value =
      { c with
        entries := Keyed.insert key ⟨value, now⟩ c.entries
        increasing := Keyed.increasing_insert key ⟨value, now⟩ c.increasing } := by
  have hroom : c.makeRoom now = c := if_pos h
  simp only [insert, hroom, ite_self]

/-- Every value in a cache is related to its key. -/
def Each (P : String → α → Prop) (c : Cache α) : Prop := ∀ q ∈ c.entries, P q.1 q.2.value

namespace Each

variable {P : String → α → Prop}

theorem of_empty (h : c.entries = []) : c.Each P := by
  intro q hq
  rw [h] at hq
  cases hq

theorem get (h : c.Each P) (now : Nat) (key : String) : (c.get now key).2.Each P :=
  fun q hq => h q (mem_get hq)

/-- A value that is found is related to its key. -/
theorem found (h : c.Each P) {now : Nat} {key : String} {value : α}
    (hv : (c.get now key).1 = some value) : P key value := by
  obtain ⟨since, hmem⟩ := mem_of_get hv
  exact h _ hmem

theorem insert (h : c.Each P) (now : Nat) {key : String} {value : α} (hv : P key value) :
    (c.insert now key value).Each P := by
  intro q hq
  rcases mem_insert hq with rfl | hq
  · exact hv
  · exact h q hq

end Each

end Cache

end Sieve
