import Mathlib.Data.List.Induction
import Sieve.Proofs.Cache.Ledger

/-!
# What a cache remembers

Consequences of telling a ledger, for a cache that starts empty and is used any number of times.

* `Cache.size_le_of_mem_replay`: at no time are there more values than the capacity;
* `Ledger.written_of_mem_replay`: what stands in a ledger was written, and nothing has touched its key
  since; so a look gives the value that was written last, and only while it is younger than the lifetime;
* `latest`: what was written last for each key;
* `Ledger.replay_eq_latest`: without a lifetime, and if nothing is thrown away by hand, the ledger is what
  was written last for the keys that were written last, as many as there is room for.
-/

namespace Sieve

variable {α : Type}

/-! ### The bound -/

namespace Cache

@[simp] theorem capacity_perform (c : Cache α) (now : Nat) (use : CacheUse α) :
    (c.perform now use).2.capacity = c.capacity := by
  cases use with
  | insert key value =>
    simp only [perform, insert]
    split
    next => rfl
    next => exact capacity_makeRoom c now
  | get key =>
    simp only [perform, get]
    split
    next => rfl
    next => split <;> rfl
  | _ => rfl

theorem size_perform_le {c : Cache α} (now : Nat) (use : CacheUse α) (h : c.size ≤ c.capacity) :
    (c.perform now use).2.size ≤ c.capacity := by
  have herase : ∀ key, (c.invalidate key).size ≤ c.capacity := fun key =>
    Nat.le_trans (List.length_filter_le _ _) h
  cases use with
  | insert key value => exact size_insert_le now key value h
  | get key =>
    simp only [perform, get]
    split
    next => exact h
    next =>
      split
      next => exact herase key
      next => exact h
  | invalidate key => exact herase key
  | clear => exact Nat.zero_le _
  | purge => exact Nat.le_trans (size_purge_le c now) h

/-- However a cache is used, it is never seen to hold more than its capacity. -/
theorem size_le_of_mem_replay {c : Cache α} (h : c.size ≤ c.capacity) {events : List (CacheEvent α)}
    {shown : CacheShowing α} (hs : shown ∈ (replay step c events).1) : shown.size ≤ c.capacity := by
  induction events generalizing c with
  | nil => cases hs
  | cons e events ih =>
    have hsize := size_perform_le e.now e.use h
    rcases List.mem_cons.1 hs with rfl | hs
    · exact hsize
    · have hcapacity := capacity_perform c e.now e.use
      rw [← hcapacity] at hsize ⊢
      exact ih hsize hs

end Cache

/-! ### Where values come from -/

namespace Ledger

variable {lifetime : Option Nat} {n : Nat}

/-- However a ledger is used, its bounds stay as they are. -/
theorem bounds_replay (l : Ledger α) (events : List (CacheEvent α)) :
    (replay step l events).2.lifetime = l.lifetime ∧
      (replay step l events).2.capacity = l.capacity := by
  induction events generalizing l with
  | nil => exact ⟨rfl, rfl⟩
  | cons e events ih =>
    obtain ⟨hlifetime, hcapacity⟩ := l.bounds_step e
    obtain ⟨hlifetime', hcapacity'⟩ := ih (l.step e).2
    exact ⟨hlifetime'.trans hlifetime, hcapacity'.trans hcapacity⟩

/-- What stands in a ledger was written at the moment it bears, and its key was left alone since. -/
theorem written_of_mem_replay (events : List (CacheEvent α)) {p : String × Entry α}
    (hp : p ∈ (replay step (Ledger.ofBounds lifetime n) events).2.entries) :
    ∃ before after, events = before ++ ⟨p.2.since, .insert p.1 p.2.value⟩ :: after ∧
      ∀ e ∈ after, ¬ e.use.Touches p.1 := by
  induction events using List.reverseRecOn with
  | nil => cases hp
  | append_singleton events e ih =>
    rw [replay_concat] at hp
    rcases mem_step hp with ⟨hp, he⟩ | rfl
    · obtain ⟨before, after, hevents, hafter⟩ := ih hp
      refine ⟨before, after ++ [e], by rw [hevents, List.append_assoc, List.cons_append], ?_⟩
      intro e' he'
      rcases List.mem_append.1 he' with he' | he'
      · exact hafter e' he'
      · rwa [List.mem_singleton.1 he']
    · exact ⟨events, [], rfl, fun e he => absurd he List.not_mem_nil⟩

end Ledger

/-- What a look finds stands in the ledger and has not expired. -/
theorem Cache.Tells.of_get_eq_some {c : Cache α} {l : Ledger α} (h : c.Tells l) {now : Nat}
    {key : String} {value : α} (hg : (c.get now key).1 = some value) :
    ∃ since, (key, ⟨value, since⟩) ∈ l.entries ∧ l.expired now (key, ⟨value, since⟩) = false := by
  rw [Cache.get, h.lookup_eq key] at hg
  cases hf : l.entries.find? (·.1 = key) with
  | none => simp [hf] at hg
  | some p =>
    obtain ⟨k, v, since⟩ := p
    have hkey : k = key := by simpa using List.find?_some hf
    have hmem := List.mem_of_find?_eq_some hf
    rw [hf] at hg
    simp only [Option.map_some, h.isExpired_eq now (k, ⟨v, since⟩)] at hg
    subst hkey
    cases he : l.expired now (k, ⟨v, since⟩) with
    | true => simp [he] at hg
    | false =>
      obtain rfl : v = value := by simpa [he] using hg
      exact ⟨since, hmem, he⟩

/-! ### What was written last -/

/-- What was written last for each key, the latest first, from everything that was written, the latest
first. -/
def latest : List (String × α) → List (String × α)
  | [] => []
  | p :: earlier => p :: (latest earlier).filter fun q => q.1 ≠ p.1

theorem nodup_latest (writes : List (String × α)) : ((latest writes).map Prod.fst).Nodup := by
  induction writes with
  | nil => exact List.nodup_nil
  | cons p earlier ih =>
    refine List.nodup_cons.2 ⟨fun hp => ?_, ih.sublist (List.filter_sublist.map _)⟩
    obtain ⟨q, hq, hkey⟩ := List.mem_map.1 hp
    exact of_decide_eq_true (List.mem_filter.1 hq).2 hkey

/-- Taking a key out of a list does not change what stands before it. -/
theorem take_filter_of_notMem {key : String} {m : Nat} {ps : List (String × α)}
    (h : key ∉ (ps.take m).map Prod.fst) :
    (ps.filter fun q => q.1 ≠ key).take m = ps.take m := by
  induction ps generalizing m with
  | nil => rfl
  | cons p ps ih =>
    cases m with
    | zero => rfl
    | succ m =>
      obtain ⟨hne, hrest⟩ := not_or.1 (mt List.mem_cons.2 h)
      have hkeep : decide (p.1 ≠ key) = true := decide_eq_true fun he => hne he.symm
      rw [List.filter_cons_of_pos (by exact hkeep), List.take_succ_cons, List.take_succ_cons, ih hrest]

/-- A key that is taken out from among the first of a list makes room for one more. -/
theorem take_filter_of_mem {key : String} {m : Nat} {ps : List (String × α)}
    (hps : (ps.map Prod.fst).Nodup) (h : key ∈ (ps.take (m + 1)).map Prod.fst) :
    (ps.filter fun q => q.1 ≠ key).take m = (ps.take (m + 1)).filter fun q => q.1 ≠ key := by
  induction ps generalizing m with
  | nil => cases h
  | cons p ps ih =>
    obtain ⟨hfirst, hps⟩ := List.nodup_cons.1 hps
    rw [List.take_succ_cons] at h ⊢
    by_cases hkey : p.1 = key
    · have hrest : ∀ q ∈ ps, decide (q.1 ≠ key) = true := fun q hq =>
        decide_eq_true fun he => hfirst (hkey.trans he.symm ▸ List.mem_map_of_mem hq)
      rw [List.filter_cons_of_neg (by simpa using hkey), List.filter_cons_of_neg (by simpa using hkey),
        List.filter_eq_self.2 hrest, List.filter_eq_self.2 fun q hq => hrest q (List.mem_of_mem_take hq)]
    · rw [List.filter_cons_of_pos (by simpa using hkey), List.filter_cons_of_pos (by simpa using hkey)]
      have hrest : key ∈ (ps.take m).map Prod.fst :=
        (List.mem_cons.1 h).resolve_left fun he => hkey he.symm
      cases m with
      | zero => cases hrest
      | succ m => rw [List.take_succ_cons, ih hps hrest]

/-- Whether a use throws values away. -/
def CacheUse.Discards : CacheUse α → Prop
  | .invalidate _ => True
  | .clear => True
  | _ => False

/-- All that is written, the latest first. -/
def CacheEvent.writes (events : List (CacheEvent α)) : List (String × α) :=
  (events.filterMap fun e => e.use.write?).reverse

theorem CacheEvent.writes_concat (events : List (CacheEvent α)) (e : CacheEvent α) :
    writes (events ++ [e]) = e.use.write?.toList ++ writes events := by
  rw [writes, List.filterMap_append, List.reverse_append]
  cases h : e.use.write? <;> simp [writes, h]

namespace Ledger

variable {l : Ledger α}

/-- The keys and values of a ledger, the latest first. -/
def pairs (entries : List (String × Entry α)) : List (String × α) :=
  (entries.map fun p => (p.1, p.2.value)).reverse

theorem expired_eq_false (hl : l.lifetime = none) (now : Nat) (p : String × Entry α) :
    l.expired now p = false := by
  rw [expired, hl]

theorem fresh_eq_self (hl : l.lifetime = none) (now : Nat) : l.fresh now = l.entries :=
  List.filter_eq_self.2 fun p _ => by rw [expired_eq_false hl]; rfl

/-- Without a lifetime, room for a new value is made by dropping what was written first. -/
theorem pairs_room (hl : l.lifetime = none) {m : Nat} (hm : l.capacity = m + 1)
    {ps : List (String × α)} (h : pairs l.entries = ps.take (m + 1)) (now : Nat) :
    pairs (l.room now) = ps.take m := by
  have hlength : l.entries.length = min (m + 1) ps.length := by
    simpa [pairs] using congrArg List.length h
  rw [room, fresh_eq_self hl, hm]
  by_cases hroom : l.entries.length < m + 1
  · have hshort : ps.length ≤ m := by omega
    rw [if_pos hroom, h, List.take_of_length_le hshort,
      List.take_of_length_le (Nat.le_succ_of_le hshort)]
  · have hmin : min (min (m + 1) ps.length - 1) (m + 1) = m := by omega
    have hlast : (ps.take (m + 1)).dropLast = ps.take m := by
      rw [List.dropLast_eq_take, List.length_take, List.take_take, hmin]
    rw [if_neg hroom, if_neg hroom, ← hlast, ← h, pairs, pairs, List.map_tail, List.dropLast_reverse]

/-- Without a lifetime, a value that is written joins the last ones that were written for other keys. -/
theorem pairs_rest (hl : l.lifetime = none) {m : Nat} (hm : l.capacity = m + 1)
    {ps : List (String × α)} (hps : (ps.map Prod.fst).Nodup) (h : pairs l.entries = ps.take (m + 1))
    (now : Nat) (key : String) :
    pairs (l.rest now key) = (ps.filter fun q => q.1 ≠ key).take m := by
  have hkeys : key ∈ l.entries.map Prod.fst ↔ key ∈ (ps.take (m + 1)).map Prod.fst := by
    rw [← h]
    simp [pairs]
  by_cases hk : key ∈ l.entries.map Prod.fst
  · rw [rest, if_pos hk, take_filter_of_mem hps (hkeys.1 hk), ← h, pairs, pairs, others,
      List.filter_reverse, List.filter_map]
    rfl
  · have hnone : key ∉ (ps.take m).map Prod.fst := fun hmem =>
      hk (hkeys.2 ((List.take_sublist_take_left (Nat.le_succ m)).map _ |>.mem hmem))
    rw [rest, if_neg hk, pairs_room hl hm h, take_filter_of_notMem hnone]

/-- Without a lifetime a use that throws nothing away only writes. -/
theorem pairs_step (hl : l.lifetime = none) (e : CacheEvent α) (he : ¬ e.use.Discards)
    {writes : List (String × α)} (h : pairs l.entries = (latest writes).take l.capacity)
    (hcap : 0 < l.capacity) :
    pairs (l.step e).2.entries = (latest (e.use.write?.toList ++ writes)).take l.capacity := by
  obtain ⟨m, hm⟩ : ∃ m, l.capacity = m + 1 := ⟨l.capacity - 1, by omega⟩
  obtain ⟨now, use⟩ := e
  cases use with
  | insert key value =>
    rw [hm] at h ⊢
    have hrest := pairs_rest hl hm (nodup_latest writes) h now key
    have hlast : pairs (l.rest now key ++ [(key, ⟨value, now⟩)]) =
        (key, value) :: pairs (l.rest now key) := by
      simp [pairs]
    exact hlast.trans (by rw [hrest]; rfl)
  | get key =>
    have hsame : (l.step ⟨now, .get key⟩).2.entries = l.entries := by
      simp only [step, perform, expired_eq_false hl]
      split <;> rfl
    rw [hsame]
    exact h
  | purge =>
    refine Eq.trans ?_ h
    exact congrArg pairs (fresh_eq_self hl now)
  | invalidate key => exact absurd trivial he
  | clear => exact absurd trivial he

/-- Without a lifetime, and if nothing is thrown away, a ledger holds what was written last, as much as
there is room for. -/
theorem replay_eq_latest (n : Nat) (events : List (CacheEvent α))
    (he : ∀ e ∈ events, ¬ e.use.Discards) :
    pairs (replay step (Ledger.ofBounds none n) events).2.entries =
      (latest (CacheEvent.writes events)).take (max 1 n) := by
  induction events using List.reverseRecOn with
  | nil => exact List.take_nil.symm
  | append_singleton events e ih =>
    obtain ⟨hlifetime, hcapacity⟩ := bounds_replay (Ledger.ofBounds none n : Ledger α) events
    have hbefore := ih fun e' he' => he e' (List.mem_append_left _ he')
    rw [show max 1 n = _ from hcapacity.symm] at hbefore ⊢
    rw [replay_concat, CacheEvent.writes_concat]
    refine pairs_step hlifetime e (he e (by simp)) hbefore ?_
    rw [hcapacity]
    exact Nat.lt_of_lt_of_le Nat.zero_lt_one (Nat.le_max_left 1 n)

end Ledger

/-! ### A cache that starts empty -/

/-- A cache that is used from the start shows what a ledger shows, whatever is done with it, as long as
values are written at increasing moments.  It never holds more than its bound; a look finds what was
written last for a key and has not expired; and without a lifetime, and if nothing is thrown away by hand,
the cache holds the last values of the keys that were written last. -/
theorem Cache.replay_ofBounds (lifetime : Option Nat) (n : Nat) (events : List (CacheEvent α))
    (hp : CacheEvent.Paced events) :
    (replay Cache.step (.ofBounds lifetime n) events).1 =
        (replay Ledger.step (.ofBounds lifetime n) events).1 ∧
      (∀ shown ∈ (replay Cache.step (Cache.ofBounds lifetime n) events).1, shown.size ≤ max 1 n) ∧
      (∀ now key value,
        ((replay Cache.step (Cache.ofBounds lifetime n) events).2.get now key).1 = some value →
        ∃ since before after,
          events = before ++ ⟨since, .insert key value⟩ :: after ∧
            (∀ e ∈ after, ¬ e.use.Touches key) ∧ ∀ age, lifetime = some age → now - since < age) ∧
      (lifetime = none → (∀ e ∈ events, ¬ e.use.Discards) →
        ((replay Cache.step (Cache.ofBounds lifetime n) events).2.entries.map
            fun p => (p.1, p.2.value)).Perm
          ((latest (CacheEvent.writes events)).take (max 1 n))) := by
  have hprecedes : (Ledger.ofBounds lifetime n : Ledger α).Precedes events := fun p hmem =>
    absurd hmem List.not_mem_nil
  obtain ⟨hshown, htells⟩ := (Cache.Tells.ofBounds lifetime n).replay_eq hprecedes hp
  refine ⟨hshown, fun shown hmem => ?_, fun now key value hget => ?_, fun hlifetime hkept => ?_⟩
  · exact Cache.size_le_of_mem_replay (Nat.zero_le _) hmem
  · obtain ⟨since, hmem, hfresh⟩ := htells.of_get_eq_some hget
    obtain ⟨before, after, hevents, hafter⟩ := Ledger.written_of_mem_replay events hmem
    refine ⟨since, before, after, hevents, hafter, fun age hage => ?_⟩
    have hlifetime : (replay Ledger.step (Ledger.ofBounds lifetime n) events).2.lifetime = some age :=
      (Ledger.bounds_replay _ events).1.trans hage
    rw [Ledger.expired, hlifetime] at hfresh
    exact Nat.lt_of_not_le (of_decide_eq_false hfresh)
  · subst hlifetime
    have hpairs := Ledger.replay_eq_latest n events hkept
    rw [← hpairs]
    exact (htells.perm.map _).trans (List.reverse_perm _).symm

/-- A value is written over, then one is pushed out, then one expires and makes room, and the last expires
under a look. -/
def turnover : List (CacheEvent Nat) :=
  [⟨1, .insert "a" 10⟩, ⟨2, .insert "b" 20⟩, ⟨3, .insert "a" 11⟩, ⟨4, .insert "c" 30⟩, ⟨5, .get "b"⟩,
    ⟨7, .get "a"⟩, ⟨8, .insert "d" 40⟩, ⟨9, .get "c"⟩, ⟨13, .purge⟩]

/-- What a cache with room for two values shows of this, and what it would hold without a lifetime. -/
theorem Cache.replay_ofBounds_turnover :
    CacheEvent.Paced turnover ∧
      (replay Cache.step (.ofBounds (some 5) 2) turnover).1 =
        [⟨.done, 1, false⟩, ⟨.done, 2, false⟩, ⟨.done, 2, false⟩, ⟨.done, 2, false⟩,
          ⟨.found none, 2, false⟩, ⟨.found (some 11), 2, false⟩, ⟨.done, 2, false⟩,
          ⟨.found none, 1, false⟩, ⟨.purged 1, 0, true⟩] ∧
      ((replay Cache.step (.ofBounds none 2) turnover).2.entries.map fun p => (p.1, p.2.value)).Perm
        [("d", 40), ("c", 30)] := by
  have hpaced : CacheEvent.Paced turnover := by
    simp [CacheEvent.Paced, turnover, CacheUse.write?]
  have hkept : ∀ e ∈ turnover, ¬ e.use.Discards := by simp [turnover, CacheUse.Discards]
  exact ⟨hpaced, (Cache.replay_ofBounds (some 5) 2 turnover hpaced).1.trans rfl,
    (Cache.replay_ofBounds none 2 turnover hpaced).2.2.2 rfl hkept⟩

end Sieve
