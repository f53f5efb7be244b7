import Sieve.Keyed

/-!
# Bounded caches

A cache keeps values by key, each with the moment at which it was written.

* A value expires when its age reaches the lifetime of the cache; without a lifetime nothing expires.
* `get` gives a value that has not expired, and throws away one that has.
* `insert` writes a value.  A new key for which there is no room first throws away everything that
  has expired and then, if there is still no room, the value that was written first.
* `size_insert_le` says that a cache never holds more than its capacity.

Every operation that depends on the age of values is told the present moment, in nanoseconds.
-/

namespace Sieve

/-- A value in a cache and the moment at which it was written. -/
structure Entry (α : Type) where
  value : α
  since : Nat

/-- Values in increasing order of keys, how long they live, and how many there may be. -/
structure Cache (α : Type) where
  entries : List (String × Entry α) := []
  lifetime : Option Nat := none
  capacity : Nat := 1024
  capacity_pos : 0 < capacity := by omega
  increasing : Keyed.Increasing entries := by exact List.Pairwise.nil

variable {α : Type}

namespace Cache

/-- An empty cache; there is room for one value at least. -/
def ofBounds (lifetime : Option Nat) (capacity : Nat) : Cache α where
  lifetime := lifetime
  capacity := max 1 capacity

/-- The number of values, expired or not. -/
def size (c : Cache α) : Nat := c.entries.length

/-- Whether there is no value, expired or not. -/
def isEmpty (c : Cache α) : Bool := c.entries.isEmpty

/-- Whether an entry has expired. -/
def isExpired (c : Cache α) (now : Nat) (e : Entry α) : Bool :=
  c.lifetime.any fun lifetime => lifetime ≤ now - e.since

/-- Throws away the value of a key. -/
def invalidate (c : Cache α) (key : String) : Cache α :=
  { c with
    entries := Keyed.erase key c.entries
    increasing := Keyed.increasing_erase key c.increasing }

/-- Throws away everything. -/
def clear (c : Cache α) : Cache α := { c with entries := [], increasing := List.Pairwise.nil }

/-- Throws away everything that has expired. -/
def purge (c : Cache α) (now : Nat) : Cache α :=
  { c with
    entries := c.entries.filter fun p => !c.isExpired now p.2
    increasing := Keyed.increasing_filter _ c.increasing }

/-- The number of values that have expired. -/
def expiredCount (c : Cache α) (now : Nat) : Nat := c.entries.countP fun p => c.isExpired now p.2

/-- The value of a key, if it has not expired, and the cache without it if it has. -/
def get (c : Cache α) (now : Nat) (key : String) : Option α × Cache α :=
  match Keyed.lookup key c.entries with
  | none => (none, c)
  | some e => if c.isExpired now e then (none, c.invalidate key) else (some e.value, c)

/-- The entry that was written first; of several the first by key. -/
def oldest : List (String × Entry α) → Option (String × Entry α)
  | [] => none
  | p :: rest =>
    match oldest rest with
    | none => some p
    | some q => if q.2.since < p.2.since then some q else some p

/-- Throws away the value that was written first. -/
def evict (c : Cache α) : Cache α :=
  match oldest c.entries with
  | none => c
  | some p => c.invalidate p.1

/-- Makes room for one more value. -/
def makeRoom (c : Cache α) (now : Nat) : Cache α :=
  if c.size < c.capacity then c
  else
    let c := c.purge now
    if c.size < c.capacity then c else c.evict

/-- Whether there is a value for a key, expired or not. -/
def holds (c : Cache α) (key : String) : Bool := (Keyed.lookup key c.entries).isSome

/-- Writes a value. -/
def insert (c : Cache α) (now : Nat) (key : String) (value : α) : Cache α :=
  let c := if c.holds key then c else c.makeRoom now
  { c with
    entries := Keyed.insert key ⟨value, now⟩ c.entries
    increasing := Keyed.increasing_insert key ⟨value, now⟩ c.increasing }

/-! ### Bounds -/

theorem oldest_mem {p : String × Entry α} : ∀ {entries : List (String × Entry α)},
    oldest entries = some p → p ∈ entries
  | q :: rest, h => by
    unfold oldest at h
    split at h
    next => exact List.mem_cons.2 (.inl (Option.some.inj h).symm)
    next r hr =>
      split at h
      next => exact List.mem_cons.2 (.inr (oldest_mem (hr.trans h)))
      next => exact List.mem_cons.2 (.inl (Option.some.inj h).symm)

theorem length_erase_lt {p : String × Entry α} {entries : List (String × Entry α)}
    (h : p ∈ entries) : (Keyed.erase p.1 entries).length < entries.length := by
  refine Nat.lt_of_le_of_ne (List.length_filter_le _ _) fun he => ?_
  have := List.length_filter_eq_length_iff.1 he p h
  simp at this

theorem size_evict {c : Cache α} (h : c.size ≤ c.capacity) : c.evict.size < c.capacity := by
  unfold evict
  split
  next h0 =>
    cases he : c.entries with
    | nil => simpa [size, he] using c.capacity_pos
    | cons p rest =>
      simp only [he, oldest] at h0
      split at h0
      next => simp at h0
      next => split at h0 <;> simp at h0
  next p hp => exact Nat.lt_of_lt_of_le (length_erase_lt (oldest_mem hp)) h

theorem size_purge_le (c : Cache α) (now : Nat) : (c.purge now).size ≤ c.size :=
  List.length_filter_le _ _

@[simp] theorem capacity_purge (c : Cache α) (now : Nat) : (c.purge now).capacity = c.capacity := rfl

@[simp] theorem capacity_invalidate (c : Cache α) (key : String) :
    (c.invalidate key).capacity = c.capacity := rfl

@[simp] theorem capacity_evict (c : Cache α) : c.evict.capacity = c.capacity := by
  unfold evict; split <;> rfl

@[simp] theorem capacity_makeRoom (c : Cache α) (now : Nat) :
    (c.makeRoom now).capacity = c.capacity := by
  unfold makeRoom
  dsimp only
  split
  next => rfl
  next => split <;> simp

theorem size_makeRoom {c : Cache α} (now : Nat) (h : c.size ≤ c.capacity) :
    (c.makeRoom now).size < c.capacity := by
  unfold makeRoom
  dsimp only
  split
  next hr => exact hr
  next =>
    split
    next hr => exact hr
    next =>
      have := size_evict (c := c.purge now) (Nat.le_trans (size_purge_le c now) h)
      simpa using this

theorem size_insert_le {c : Cache α} (now : Nat) (key : String) (value : α)
    (h : c.size ≤ c.capacity) : (c.insert now key value).size ≤ c.capacity := by
  by_cases hk : (Keyed.lookup key c.entries).isSome
  · simpa [insert, holds, hk, size, Keyed.length_insert c.increasing] using h
  · have hr := size_makeRoom now h
    simp only [size] at hr
    have hl : (Keyed.insert key ⟨value, now⟩ (c.makeRoom now).entries).length = _ :=
      Keyed.length_insert (c.makeRoom now).increasing
    simp only [insert, holds, hk, size, Bool.false_eq_true, if_false]
    rw [hl]
    split <;> omega

end Cache

end Sieve
