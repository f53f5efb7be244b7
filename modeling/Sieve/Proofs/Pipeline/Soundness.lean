import Sieve.Pipeline.Layers
import Sieve.Proofs.Cache.Entries
import Sieve.Proofs.Tree.CacheKey

/-!
# Right answers

A pipeline is to answer every tree in its own way, whatever has been asked before.

* `Host.Keeps`: a relation of keys and results that holds of all that a cache keeps.  It is enough that
  it holds of what is written;
* `Host.Sound`: what is kept in a cache under the text of a tree is the answer for that tree.  The
  text tells the tree, so whoever finds something has found the right answer, and it does not matter
  when it was written and what has expired or was thrown away since;
* `Executor.Transparent`: on a sound host the answer is the right one, and the host stays sound.  A
  terminal that only filters is so, and so are logging, retrying and caching around an executor that
  is.
-/

namespace Sieve

/-! ### What a cache keeps -/

/-- What is kept in one of the caches is related to its key. -/
def Host.Keeps (cache : Nat) (P : String → List Json → Prop) (h : Host) : Prop :=
  (h.caches cache).Each P

namespace Host.Keeps

variable {cache : Nat} {P : String → List Json → Prop} {h : Host}

theorem of_empty (he : (h.caches cache).entries = []) : h.Keeps cache P := Cache.Each.of_empty he

/-- Only the cache matters. -/
theorem of_caches_eq (hk : h.Keeps cache P) {h' : Host} (hc : h'.caches cache = h.caches cache) :
    h'.Keeps cache P := by
  unfold Host.Keeps
  rw [hc]
  exact hk

/-- A cache that is written anew has to keep what it may keep. -/
theorem update (hk : h.Keeps cache P) {other : Nat} {c : Cache (List Json)}
    (hc : cache = other → c.Each P) : (Sieve.update h.caches other c cache).Each P := by
  simp only [Sieve.update]
  split
  next heq => exact hc heq
  next => exact hk

theorem lookup (hk : h.Keeps cache P) (other : Nat) (key : String) :
    (Host.lookup other key h).2.Keeps cache P := by
  refine hk.update fun he => ?_
  subst he
  exact hk.get h.now key

/-- What is found is related to the key. -/
theorem found (hk : h.Keeps cache P) {key : String} {rows : List Json}
    (hf : (Host.lookup cache key h).1 = some rows) : P key rows :=
  Cache.Each.found hk hf

/-- What is written has to be related to its key. -/
theorem keep (hk : h.Keeps cache P) (other : Nat) {key : String} {rows : List Json}
    (hrows : P key rows) : (Host.keep other key rows h).2.Keeps cache P := by
  refine hk.update fun he => ?_
  subst he
  exact hk.insert h.now hrows

end Host.Keeps

/-! ### Soundness -/

/-- Each of the given caches keeps right answers only. -/
def Host.Sound (used : List Nat) (answer : Tree → List Json) (h : Host) : Prop :=
  ∀ i ∈ used, (h.caches i).Each fun key rows => ∀ t, cacheKey t = key → rows = answer t

/-- An executor gives right answers and keeps nothing else. -/
def Executor.Transparent (used : List Nat) (answer : Tree → List Json) (x : Executor Host) : Prop :=
  ∀ t ctx h, h.Sound used answer → (x t ctx h).1 = .ok (answer t) ∧ (x t ctx h).2.Sound used answer

namespace Host.Sound

variable {used : List Nat} {answer : Tree → List Json} {h : Host}

theorem keeps (hs : h.Sound used answer) {cache : Nat} (hc : cache ∈ used) :
    h.Keeps cache fun key rows => ∀ t, cacheKey t = key → rows = answer t :=
  hs cache hc

/-- Only the caches matter. -/
theorem of_caches_eq (hs : h.Sound used answer) {h' : Host}
    (hc : ∀ i ∈ used, h'.caches i = h.caches i) : h'.Sound used answer :=
  fun i hi => (hs.keeps hi).of_caches_eq (hc i hi)

theorem lookup (hs : h.Sound used answer) (cache : Nat) (key : String) :
    (Host.lookup cache key h).2.Sound used answer :=
  fun _ hi => (hs.keeps hi).lookup cache key

/-- What is found is the right answer. -/
theorem found (hs : h.Sound used answer) {cache : Nat} (hc : cache ∈ used) {t : Tree}
    {rows : List Json} (hf : (Host.lookup cache (cacheKey t) h).1 = some rows) : rows = answer t :=
  (hs.keeps hc).found hf t rfl

/-- A right answer may be kept: it is kept for no other tree. -/
theorem keep (hs : h.Sound used answer) (cache : Nat) (t : Tree) :
    (Host.keep cache (cacheKey t) (answer t) h).2.Sound used answer := by
  refine fun i hi => (hs.keeps hi).keep cache fun t' ht => ?_
  rw [cacheKey_injective ht]

end Host.Sound

/-! ### Layer by layer -/

/-- What only answers leaves the host as it is. -/
theorem Host.pure_apply {α : Type} (a : α) (h : Host) : (pure a : StateM Host α) h = (a, h) := rfl

/-- What only answers leaves the dispatch and the host as they are. -/
theorem Handling.pure_apply {α : Type} (a : α) (d : Dispatch) (h : Host) :
    (pure a : Handling Host α) d h = ((a, d), h) := rfl

/-- The first call of what is below goes through. -/
theorem Next.call_idle (next : Next Host) (manner : Manner) (t : Tree) (ctx : Context) (h : Host) :
    next.call manner t ctx .idle h =
      (((next.below t ctx h).1, .after (next.below t ctx h).1), (next.below t ctx h).2) := by
  cases manner <;> rfl

/-- A middleware that caches, as a whole. -/
theorem Middleware.around_caching (cache : Nat) (x : Executor Host) (t : Tree) (ctx : Context)
    (h : Host) : (caching cache).around x t ctx h =
      match Host.lookup cache (cacheKey t) h with
      | (some rows, h) => (.ok rows, h)
      | (none, h) =>
        match x t ctx h with
        | (.ok rows, h) => (.ok rows, (Host.keep cache (cacheKey t) rows h).2)
        | (.error e, h) => (.error e, h) := by
  simp only [around, caching, bind, StateT.bind, liftM, monadLift, MonadLift.monadLift, StateT.lift,
    Host.pure_apply, Next.run]
  rcases Host.lookup cache (cacheKey t) h with ⟨_ | rows, h⟩
  · simp only [bind, StateT.bind, Next.call_idle]
    rcases x t ctx h with ⟨_ | rows, h⟩
    · rfl
    · rfl
  · rfl

/-- What succeeds at once is not tried again. -/
theorem RetryPolicy.attempt_ok (p : RetryPolicy) (mayRetry : PipelineError → Bool)
    (pause : Nat → Handling Host Unit) {operation : Handling Host Outcome} {d d' : Dispatch}
    {h h' : Host} {rows : List Json} (ho : operation d h = ((.ok rows, d'), h')) :
    p.attempt mayRetry pause operation d h = ((.ok rows, d'), h') := by
  rw [attempt, attemptAfter_eq]
  simp only [bind, StateT.bind, ho, Handling.pure_apply]

namespace Executor

variable {used : List Nat} {answer : Tree → List Json} {x : Executor Host}

theorem transparent_filtering (used : List Nat) (e : Evaluator) (items : List Json) :
    (filtering e items).Transparent used (e.filter items) := by
  intro t ctx h hs
  exact ⟨rfl, hs.of_caches_eq fun _ _ => rfl⟩

theorem transparent_logging (hx : x.Transparent used answer) (pipeline : String) :
    ((Middleware.logging pipeline).around x).Transparent used answer := by
  intro t ctx h hs
  obtain ⟨hr, hs⟩ := hx t ctx h hs
  exact ⟨hr, hs.of_caches_eq fun _ _ => rfl⟩

theorem transparent_retrying (hx : x.Transparent used answer) (p : RetryPolicy) :
    ((Middleware.retrying p).around x).Transparent used answer := by
  intro t ctx h hs
  obtain ⟨hr, hs⟩ := hx t ctx h hs
  -- the first try succeeds, so the policy is never asked
  have hcall : (Next.mk x).retry t ctx .idle h =
      ((.ok (answer t), .succeeded), (x t ctx h).2) := by
    rw [Next.retry, Next.call_idle, hr]
    rfl
  have hhandle := p.attempt_ok PipelineError.isRetryable (fun ms => Host.pause ms) hcall
  simp only [Middleware.around, Middleware.retrying, hhandle]
  exact ⟨trivial, hs⟩

theorem transparent_caching (hx : x.Transparent used answer) {cache : Nat} (hc : cache ∈ used) :
    ((Middleware.caching cache).around x).Transparent used answer := by
  intro t ctx h hs
  rw [Middleware.around_caching]
  -- a look may throw away what has expired, so what is below runs on the host after it
  have hlookup := hs.lookup cache (cacheKey t)
  cases hf : Host.lookup cache (cacheKey t) h with
  | mk found h' =>
    rw [hf] at hlookup
    cases found with
    | some rows =>
      have hrows : rows = answer t := hs.found hc (by rw [hf])
      exact ⟨by rw [hrows], hlookup⟩
    | none =>
      obtain ⟨hr, hs'⟩ := hx t ctx h' hlookup
      cases hb : x t ctx h' with
      | mk outcome h'' =>
        rw [hb] at hr hs'
        cases hr
        simp only [hb]
        exact ⟨trivial, hs'.keep cache t⟩

end Executor

end Sieve
