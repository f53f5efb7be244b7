import Sieve.Proofs.Cache.Entries

/-!
# A cache as a ledger

A `Ledger` is a list of values in the order in which they were written last.  It says without any search
for moments what a cache has to do:

* writing a value again moves it to the end, and nothing else happens; a new value is written at the end,
  and if the list is full, what has expired leaves first, and if it is full still, the first of the list;
* a look gives a value that has not expired, and takes one out that has.

A cache is a table by key, and keeps the moments at which its values were written.

* `CacheEvent`: a use of a cache at a moment, with `Cache.step` and `Ledger.step` for what it shows;
* `Cache.Tells`: a cache and a ledger hold the same, and the ledger stands in the order of the moments.  It
  is kept by every use (`Cache.Tells.step`) if values are written at increasing moments;
* `Cache.Tells.replay_eq`: then all that can be seen of a cache is what its ledger shows.
-/

namespace Sieve

variable {α : Type}

/-! ### Uses -/

/-- Something that is done with a cache. -/
inductive CacheUse (α : Type)
  | insert (key : String) (value : α)
  | get (key : String)
  | invalidate (key : String)
  | clear
  | purge

/-- A use of a cache, and its moment. -/
structure CacheEvent (α : Type) where
  now : Nat
  use : CacheUse α

/-- What a use answers: the value that a look finds, or how many values a purge throws away. -/
inductive CacheAnswer (α : Type)
  | done
  | found (value : Option α)
  | purged (count : Nat)

/-- What can be seen of a use: the answer, and then how many values there are and whether there is
none. -/
structure CacheShowing (α : Type) where
  answer : CacheAnswer α
  size : Nat
  isEmpty : Bool

/-- The key and the value that a use writes. -/
def CacheUse.write? : CacheUse α → Option (String × α)
  | .insert key value => some (key, value)
  | _ => none

/-- Whether a use leaves nothing of what a key had before. -/
def CacheUse.Touches (key : String) : CacheUse α → Prop
  | .insert k _ => k = key
  | .invalidate k => k = key
  | .clear => True
  | _ => False

/-- The values are written at increasing moments. -/
def CacheEvent.Paced (events : List (CacheEvent α)) : Prop :=
  events.Pairwise fun a b => a.use.write?.isSome → b.use.write?.isSome → a.now < b.now

namespace Cache

/-- What a use makes of a cache, and the answer. -/
def perform (c : Cache α) (now : Nat) : CacheUse α → CacheAnswer α × Cache α
  | .insert key value => (.done, c.insert now key value)
  | .get key => (.found (c.get now key).1, (c.get now key).2)
  | .invalidate key => (.done, c.invalidate key)
  | .clear => (.done, c.clear)
  | .purge => (.purged (c.expiredCount now), c.purge now)

/-- One use of a cache. -/
def step (c : Cache α) (e : CacheEvent α) : CacheShowing α × Cache α :=
  let r := c.perform e.now e.use
  (⟨r.1, r.2.size, r.2.isEmpty⟩, r.2)

end Cache

/-! ### Ledgers -/

/-- Values in the order in which they were written last, how long they live, and how many there may
be. -/
structure Ledger (α : Type) where
  entries : List (String × Entry α) := []
  lifetime : Option Nat
  capacity : Nat

namespace Ledger

/-- A value has expired if there is a lifetime and its age has reached it. -/
def expired (l : Ledger α) (now : Nat) (p : String × Entry α) : Bool :=
  match l.lifetime with
  | none => false
  | some lifetime => lifetime ≤ now - p.2.since

/-- A ledger with nothing written; there is room for one value at least. -/
def ofBounds (lifetime : Option Nat) (capacity : Nat) : Ledger α := ⟨[], lifetime, max 1 capacity⟩

/-- What has not expired. -/
def fresh (l : Ledger α) (now : Nat) : List (String × Entry α) :=
  l.entries.filter fun p => !l.expired now p

/-- What belongs to other keys. -/
def others (l : Ledger α) (key : String) : List (String × Entry α) :=
  l.entries.filter fun p => p.1 ≠ key

/-- What stays when room is made for a new value. -/
def room (l : Ledger α) (now : Nat) : List (String × Entry α) :=
  if l.entries.length < l.capacity then l.entries
  else if (l.fresh now).length < l.capacity then l.fresh now
  else (l.fresh now).tail

/-- What stays when a value is written. -/
def rest (l : Ledger α) (now : Nat) (key : String) : List (String × Entry α) :=
  if key ∈ l.entries.map Prod.fst then l.others key else l.room now

theorem room_sublist (l : Ledger α) (now : Nat) : (l.room now).Sublist l.entries := by
  have hfresh : (l.fresh now).Sublist l.entries := List.filter_sublist
  unfold room
  split
  next => exact List.Sublist.refl _
  next =>
    split
    next => exact hfresh
    next => exact (List.tail_sublist _).trans hfresh

theorem rest_sublist (l : Ledger α) (now : Nat) (key : String) :
    (l.rest now key).Sublist l.entries := by
  unfold rest
  split
  next => exact List.filter_sublist
  next => exact l.room_sublist now

/-- What stays belongs to other keys. -/
theorem ne_of_mem_rest {l : Ledger α} {now : Nat} {key : String} {p : String × Entry α}
    (hp : p ∈ l.rest now key) : p.1 ≠ key := by
  unfold rest at hp
  split at hp
  next => simpa using (List.mem_filter.1 hp).2
  next hk =>
    rintro rfl
    exact hk (List.mem_map_of_mem ((l.room_sublist now).mem hp))

/-- What a use makes of a ledger, and the answer. -/
def perform (l : Ledger α) (now : Nat) : CacheUse α → CacheAnswer α × Ledger α
  | .insert key value => (.done, { l with entries := l.rest now key ++ [(key, ⟨value, now⟩)] })
  | .get key =>
    match l.entries.find? (·.1 = key) with
    | none => (.found none, l)
    | some p =>
      if l.expired now p then (.found none, { l with entries := l.others key })
      else (.found (some p.2.value), l)
  | .invalidate key => (.done, { l with entries := l.others key })
  | .clear => (.done, { l with entries := [] })
  | .purge => (.purged (l.entries.length - (l.fresh now).length), { l with entries := l.fresh now })

/-- One use of a ledger. -/
def step (l : Ledger α) (e : CacheEvent α) : CacheShowing α × Ledger α :=
  let r := l.perform e.now e.use
  (⟨r.1, r.2.entries.length, r.2.entries.isEmpty⟩, r.2)

end Ledger

/-! ### One after another -/

/-- What is seen of several events, one after another, and the state after them. -/
def replay {σ ε β : Type} (step : σ → ε → β × σ) : σ → List ε → List β × σ
  | s, [] => ([], s)
  | s, e :: es =>
    ((step s e).1 :: (replay step (step s e).2 es).1, (replay step (step s e).2 es).2)

section

variable {σ τ ε β : Type} {f : σ → ε → β × σ} {g : τ → ε → β × τ}

theorem replay_concat (s : σ) (es : List ε) (e : ε) :
    (replay f s (es ++ [e])).2 = (f (replay f s es).2 e).2 := by
  induction es generalizing s with
  | nil => rfl
  | cons e' es ih => exact ih (f s e').2

/-- Two systems show the same, if their states are related in a way that every event keeps.  The relation
may say something about the events to come. -/
theorem replay_eq_of_related {R : σ → τ → List ε → Prop}
    (hstep : ∀ s t e es, R s t (e :: es) → (f s e).1 = (g t e).1 ∧ R (f s e).2 (g t e).2 es)
    (es : List ε) {s : σ} {t : τ} (h : R s t es) :
    (replay f s es).1 = (replay g t es).1 ∧ R (replay f s es).2 (replay g t es).2 [] := by
  induction es generalizing s t with
  | nil => exact ⟨rfl, h⟩
  | cons e es ih =>
    obtain ⟨hshown, hnext⟩ := hstep s t e es h
    obtain ⟨hrest, hlast⟩ := ih hnext
    exact ⟨by rw [replay, replay, hshown, hrest], hlast⟩

end

/-! ### A cache tells a ledger -/

namespace Cache

/-- A cache and a ledger hold the same under the same bounds, and the ledger stands in the order of the
moments. -/
structure Tells (c : Cache α) (l : Ledger α) : Prop where
  perm : c.entries.Perm l.entries
  ordered : l.entries.Pairwise fun p q => p.2.since < q.2.since
  lifetime : c.lifetime = l.lifetime
  capacity : c.capacity = l.capacity

/-- The value that was written first is the one that is before all others. -/
theorem oldest_eq_some {entries : List (String × Entry α)} {p : String × Entry α} (hp : p ∈ entries)
    (hfirst : ∀ q ∈ entries, q ≠ p → p.2.since < q.2.since) : oldest entries = some p := by
  induction entries with
  | nil => cases hp
  | cons q rest ih =>
    have hrest : ∀ r ∈ rest, r ≠ p → p.2.since < r.2.since := fun r hr =>
      hfirst r (List.mem_cons_of_mem _ hr)
    rw [oldest]
    by_cases hq : q = p
    · subst hq
      cases ho : oldest rest with
      | none => rfl
      | some r =>
        have hlater : ¬ r.2.since < q.2.since := by
          by_cases hr : r = q
          · rw [hr]
            exact Nat.lt_irrefl _
          · exact Nat.lt_asymm (hrest r (oldest_mem ho) hr)
        simp only [if_neg hlater]
    · have hmem : p ∈ rest := (List.mem_cons.1 hp).resolve_left fun he => hq he.symm
      rw [ih hmem hrest]
      exact if_pos (hfirst q List.mem_cons_self hq)

namespace Tells

variable {c : Cache α} {l : Ledger α}

theorem ofBounds (lifetime : Option Nat) (capacity : Nat) :
    (Cache.ofBounds lifetime capacity : Cache α).Tells (.ofBounds lifetime capacity) :=
  ⟨List.Perm.refl _, List.Pairwise.nil, rfl, rfl⟩

/-! What can be read off a cache is what can be read off its ledger. -/

theorem size_eq (h : c.Tells l) : c.size = l.entries.length := h.perm.length_eq

theorem isEmpty_eq (h : c.Tells l) : c.isEmpty = l.entries.isEmpty := h.perm.isEmpty_eq

theorem isExpired_eq (h : c.Tells l) (now : Nat) (p : String × Entry α) :
    c.isExpired now p.2 = l.expired now p := by
  rw [isExpired, Ledger.expired, h.lifetime]
  cases l.lifetime <;> rfl

theorem nodup (h : c.Tells l) : (l.entries.map Prod.fst).Nodup :=
  (h.perm.map Prod.fst).nodup_iff.1 (Keyed.nodup_of_increasing c.increasing)

theorem lookup_eq (h : c.Tells l) (key : String) :
    Keyed.lookup key c.entries = (l.entries.find? (·.1 = key)).map Prod.snd := by
  rw [Keyed.lookup_eq_find?, Keyed.find?_of_perm (Keyed.nodup_of_increasing c.increasing) h.perm]

theorem holds_iff (h : c.Tells l) (key : String) :
    c.holds key = true ↔ key ∈ l.entries.map Prod.fst := by
  simp [holds, h.lookup_eq, List.find?_isSome]

theorem expiredCount_eq (h : c.Tells l) (now : Nat) :
    c.expiredCount now = l.entries.length - (l.fresh now).length := by
  have hsplit := List.length_eq_countP_add_countP (l.expired now) (l := l.entries)
  have hfresh : (l.fresh now).length = l.entries.countP fun p => ¬ l.expired now p := by
    simp [Ledger.fresh, List.countP_eq_length_filter]
  have hcount : c.expiredCount now = l.entries.countP (l.expired now) := by
    rw [expiredCount, h.perm.countP_eq]
    exact List.countP_congr fun p _ => by rw [h.isExpired_eq]
  omega

/-! What is thrown away from a cache is thrown away from its ledger. -/

theorem others (h : c.Tells l) (key : String) :
    (c.invalidate key).Tells { l with entries := l.others key } :=
  ⟨h.perm.filter _, h.ordered.filter _, h.lifetime, h.capacity⟩

theorem clear (h : c.Tells l) : c.clear.Tells { l with entries := [] } :=
  ⟨List.Perm.refl _, List.Pairwise.nil, h.lifetime, h.capacity⟩

theorem fresh (h : c.Tells l) (now : Nat) :
    (c.purge now).Tells { l with entries := l.fresh now } := by
  have hsame : (fun p : String × Entry α => !c.isExpired now p.2) = fun p => !l.expired now p := by
    funext p
    rw [h.isExpired_eq]
  refine ⟨?_, h.ordered.filter _, h.lifetime, h.capacity⟩
  show (c.entries.filter fun p => !c.isExpired now p.2).Perm _
  rw [hsame]
  exact h.perm.filter _

/-- What was written first stands at the head of the ledger. -/
theorem evict (h : c.Tells l) : c.evict.Tells { l with entries := l.entries.tail } := by
  cases hl : l.entries with
  | nil =>
    have hperm := h.perm
    rw [hl] at hperm
    have hnone : oldest c.entries = none := by rw [List.perm_nil.1 hperm]; rfl
    rw [Cache.evict, hnone]
    exact ⟨hperm, List.Pairwise.nil, h.lifetime, h.capacity⟩
  | cons p rest =>
    have hordered := h.ordered
    have hnodup := h.nodup
    rw [hl] at hordered hnodup
    obtain ⟨hfirst, hrest⟩ := List.pairwise_cons.1 hordered
    obtain ⟨hkey, -⟩ := List.nodup_cons.1 hnodup
    have hmem : ∀ q, q ∈ c.entries ↔ q ∈ p :: rest := fun q => by rw [h.perm.mem_iff, hl]
    have holdest : oldest c.entries = some p := by
      refine oldest_eq_some ((hmem p).2 List.mem_cons_self) fun q hq hne => ?_
      exact hfirst q ((List.mem_cons.1 ((hmem q).1 hq)).resolve_left hne)
    have htail : l.others p.1 = rest := by
      have hothers : rest.filter (fun q => q.1 ≠ p.1) = rest :=
        List.filter_eq_self.2 fun q hq =>
          decide_eq_true fun he => hkey (he ▸ List.mem_map_of_mem hq)
      simpa [Ledger.others, hl] using hothers
    have hothers := h.others p.1
    rw [Cache.evict, holdest]
    rw [htail] at hothers
    exact hothers

theorem room (h : c.Tells l) (now : Nat) :
    (c.makeRoom now).Tells { l with entries := l.room now } := by
  have hfresh := h.fresh now
  have hsize := hfresh.size_eq
  unfold makeRoom Ledger.room
  dsimp only
  rw [h.size_eq, h.capacity]
  split
  next => exact h
  next =>
    rw [hsize, capacity_purge, h.capacity]
    split
    next => exact hfresh
    next => exact hfresh.evict

/-- What stays when a value is written, in the cache and in its ledger. -/
theorem rest (h : c.Tells l) (now : Nat) (key : String) :
    ((if c.holds key then c else c.makeRoom now).invalidate key).Tells
      { l with entries := l.rest now key } := by
  by_cases hk : key ∈ l.entries.map Prod.fst
  · have hothers := h.others key
    rw [Ledger.rest, if_pos hk, if_pos ((h.holds_iff key).2 hk)]
    exact hothers
  · have hothers := (h.room now).others key
    have hrest : l.rest now key = l.room now := if_neg hk
    -- the key is new, so whatever stays belongs to other keys
    have hnone : ({ l with entries := l.room now } : Ledger α).others key = l.rest now key :=
      (List.filter_eq_self.2 fun p hp =>
        decide_eq_true (Ledger.ne_of_mem_rest (hrest ▸ hp))).trans hrest.symm
    rw [hnone] at hothers
    rw [if_neg fun hc => hk ((h.holds_iff key).1 hc)]
    exact hothers

/-- A value that is written later than all others stands at the end of the ledger. -/
theorem insert (h : c.Tells l) {now : Nat} (hlate : ∀ p ∈ l.entries, p.2.since < now) (key : String)
    (value : α) : (c.insert now key value).Tells
      { l with entries := l.rest now key ++ [(key, ⟨value, now⟩)] } := by
  have hrest := h.rest now key
  refine ⟨(Keyed.perm_insert key _ (Cache.increasing _)).trans (hrest.perm.append_right _), ?_, ?_, ?_⟩
  · refine List.pairwise_append.2 ⟨hrest.ordered, List.pairwise_singleton _ _, fun p hp q hq => ?_⟩
    rw [List.mem_singleton.1 hq]
    exact hlate p ((l.rest_sublist now key).mem hp)
  · exact hrest.lifetime
  · exact hrest.capacity

/-- Every use shows the same of both, and leaves a cache that tells its ledger. -/
theorem perform (h : c.Tells l) (now : Nat) (use : CacheUse α)
    (hlate : use.write?.isSome → ∀ p ∈ l.entries, p.2.since < now) :
    (c.perform now use).1 = (l.perform now use).1 ∧
      (c.perform now use).2.Tells (l.perform now use).2 := by
  cases use with
  | insert key value => exact ⟨rfl, h.insert (hlate rfl) key value⟩
  | get key =>
    have hlookup := h.lookup_eq key
    simp only [Cache.perform, Ledger.perform, Cache.get, hlookup]
    cases l.entries.find? (·.1 = key) with
    | none => exact ⟨rfl, h⟩
    | some p =>
      simp only [Option.map_some, h.isExpired_eq now p]
      cases l.expired now p with
      | true => exact ⟨rfl, h.others key⟩
      | false => exact ⟨rfl, h⟩
  | invalidate key => exact ⟨rfl, h.others key⟩
  | clear => exact ⟨rfl, h.clear⟩
  | purge => exact ⟨by rw [Cache.perform, Ledger.perform, h.expiredCount_eq], h.fresh now⟩

theorem step (h : c.Tells l) (e : CacheEvent α)
    (hlate : e.use.write?.isSome → ∀ p ∈ l.entries, p.2.since < e.now) :
    (c.step e).1 = (l.step e).1 ∧ (c.step e).2.Tells (l.step e).2 := by
  obtain ⟨hanswer, htells⟩ := h.perform e.now e.use hlate
  refine ⟨?_, htells⟩
  simp only [Cache.step, Ledger.step, hanswer, htells.size_eq, htells.isEmpty_eq]

end Tells

end Cache

/-! ### Any number of uses -/

namespace Ledger

variable {l : Ledger α}

/-- A use leaves the bounds of a ledger as they are. -/
theorem bounds_step (l : Ledger α) (e : CacheEvent α) :
    (l.step e).2.lifetime = l.lifetime ∧ (l.step e).2.capacity = l.capacity := by
  obtain ⟨now, use⟩ := e
  cases use with
  | get key =>
    simp only [step, perform]
    split
    next => exact ⟨rfl, rfl⟩
    next => split <;> exact ⟨rfl, rfl⟩
  | _ => exact ⟨rfl, rfl⟩

/-- What stands in a ledger after a use stood there before and was left alone, or is what the use
writes. -/
theorem mem_step {e : CacheEvent α} {p : String × Entry α} (hp : p ∈ (l.step e).2.entries) :
    p ∈ l.entries ∧ ¬ e.use.Touches p.1 ∨ e = ⟨p.2.since, .insert p.1 p.2.value⟩ := by
  obtain ⟨now, use⟩ := e
  cases use with
  | insert key value =>
    rcases List.mem_append.1 hp with hp | hp
    · exact .inl ⟨(l.rest_sublist now key).mem hp, fun he => ne_of_mem_rest hp he.symm⟩
    · cases List.mem_singleton.1 hp
      exact .inr rfl
  | get key =>
    refine .inl ⟨?_, id⟩
    simp only [step, perform] at hp
    split at hp
    next => exact hp
    next =>
      split at hp
      next => exact (List.mem_filter.1 hp).1
      next => exact hp
  | invalidate key =>
    obtain ⟨hp, hkey⟩ := List.mem_filter.1 hp
    exact .inl ⟨hp, fun he => of_decide_eq_true hkey he.symm⟩
  | clear => cases hp
  | purge => exact .inl ⟨(List.mem_filter.1 hp).1, id⟩

/-- Whatever is written in the ledger was written before the events to come write anything. -/
def Precedes (l : Ledger α) (events : List (CacheEvent α)) : Prop :=
  ∀ p ∈ l.entries, ∀ e ∈ events, e.use.write?.isSome → p.2.since < e.now

theorem Precedes.step {e : CacheEvent α} {events : List (CacheEvent α)}
    (h : l.Precedes (e :: events)) (hp : CacheEvent.Paced (e :: events)) :
    (l.step e).2.Precedes events := by
  intro p hmem e' he' hwrites
  rcases mem_step hmem with ⟨hmem, -⟩ | rfl
  · exact h p hmem e' (List.mem_cons_of_mem _ he') hwrites
  · exact (List.pairwise_cons.1 hp).1 e' he' rfl hwrites

end Ledger

/-- All that can be seen of a cache is what its ledger shows, and at the end it still tells the ledger. -/
theorem Cache.Tells.replay_eq {c : Cache α} {l : Ledger α} (h : c.Tells l)
    {events : List (CacheEvent α)} (hl : l.Precedes events) (hp : CacheEvent.Paced events) :
    (replay Cache.step c events).1 = (replay Ledger.step l events).1 ∧
      (replay Cache.step c events).2.Tells (replay Ledger.step l events).2 := by
  have hrelated := replay_eq_of_related (f := Cache.step) (g := Ledger.step)
    (R := fun (c : Cache α) l es => c.Tells l ∧ l.Precedes es ∧ CacheEvent.Paced es)
    (by
      rintro c l e es ⟨h, hl, hp⟩
      obtain ⟨hshown, htells⟩ := h.step e fun hw p hmem => hl p hmem e List.mem_cons_self hw
      exact ⟨hshown, htells, hl.step hp, (List.pairwise_cons.1 hp).2⟩)
    events ⟨h, hl, hp⟩
  exact ⟨hrelated.1, hrelated.2.1⟩

end Sieve
