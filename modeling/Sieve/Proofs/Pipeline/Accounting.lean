import Mathlib.Data.List.Perm.Subperm
import Mathlib.Data.List.Induction
import Sieve.Proofs.Metrics.Tally
import Sieve.Proofs.Pipeline.Persistence

/-!
# What executions through a cache come to

Logging around a cache around a layer that tries again, around a terminal: where nothing expires and there
is room for the results of all trees, the counters, the cache and the calls of the terminal tell one story.

* `Serving`: an execution with the host before and after it; `Executor.serveAll` serves a row of trees;
* `Executor.Plays`: a terminal that yields one outcome after another, whatever they are, and leaves the
  caches alone and the counters of executions and looks;
* `Serving.Follows`: what an execution does after others.  It finds the rows of an earlier success, or
  there is none and it calls the terminal until the matter is settled;
* `Host.Remembers`: the cache holds the rows of the successes so far, and nothing else.
  `Host.Remembers.serve` is the step, which gives the former and keeps the latter, and
  `Host.Remembers.serveAll` the run;
* `Pipeline.serveAll_conserves`: the counters add up, an execution is a hit just after a success for the same
  tree, failures are not kept, and the terminal succeeds once for a tree at most.
-/

namespace Sieve

/-! ### Servings -/

/-- An execution of a tree in a context, with the host before and after it. -/
structure Serving where
  tree : Tree
  context : Context
  before : Host
  outcome : Outcome
  after : Host

namespace Serving

/-- Whether an execution has succeeded. -/
def succeeded (s : Serving) : Bool := s.outcome.isOk

theorem succeeded_of_ok {s : Serving} {rows : List Json} (h : s.outcome = .ok rows) : s.succeeded = true := by
  rw [succeeded, h]
  rfl

theorem exists_rows {s : Serving} (h : s.succeeded = true) : ∃ rows, s.outcome = .ok rows := by
  cases hout : s.outcome with
  | ok rows => exact ⟨rows, rfl⟩
  | error e => simp [succeeded, hout, Except.isOk, Except.toBool] at h

/-- Some execution of a tree has succeeded. -/
def Success (past : List Serving) (t : Tree) : Prop := ∃ e ∈ past, e.tree = t ∧ e.succeeded = true

theorem success_append {past later : List Serving} {t : Tree} :
    Success (past ++ later) t ↔ Success past t ∨ Success later t := by
  simp only [Success, List.mem_append]
  constructor
  · rintro ⟨e, he | he, hrest⟩
    · exact .inl ⟨e, he, hrest⟩
    · exact .inr ⟨e, he, hrest⟩
  · rintro (⟨e, he, hrest⟩ | ⟨e, he, hrest⟩)
    · exact ⟨e, .inl he, hrest⟩
    · exact ⟨e, .inr he, hrest⟩

theorem success_singleton {s : Serving} {t : Tree} :
    Success [s] t ↔ s.tree = t ∧ s.succeeded = true := by
  simp [Success]

/-- An execution has raised a counter by one. -/
def Counts (s : Serving) (counter : String) : Prop :=
  Metric.level s.after.metrics counter = Metric.level s.before.metrics counter + 1

/-- What a terminal has returned during an execution, where `o i` is the outcome of its call `i`. -/
def returned (o : Nat → Outcome) (terminal : Nat) (s : Serving) : List Outcome :=
  (List.range (s.after.calls terminal - s.before.calls terminal)).map fun i =>
    o (s.before.calls terminal + 1 + i)

end Serving

/-- Serves one tree after another. -/
def Executor.serveAll (x : Executor Host) : List (Tree × Context) → Host → List Serving × Host
  | [], h => ([], h)
  | (t, ctx) :: rest, h =>
    (⟨t, ctx, h, (x t ctx h).1, (x t ctx h).2⟩ :: (x.serveAll rest (x t ctx h).2).1,
      (x.serveAll rest (x t ctx h).2).2)

namespace Executor

variable (x : Executor Host)

theorem serveAll_asked (asked : List (Tree × Context)) (h : Host) :
    (x.serveAll asked h).1.map (fun s => (s.tree, s.context)) = asked := by
  induction asked generalizing h with
  | nil => rfl
  | cons q asked ih => rw [serveAll, List.map_cons, ih]

/-- What every execution raises by one grows by the number of executions. -/
theorem serveAll_sum {f : Host → Nat} (asked : List (Tree × Context)) (h : Host)
    (hf : ∀ s ∈ (x.serveAll asked h).1, f s.after = f s.before + 1) :
    f (x.serveAll asked h).2 = f h + asked.length := by
  induction asked generalizing h with
  | nil => rfl
  | cons q asked ih =>
    have hfirst := hf _ List.mem_cons_self
    have hrest := ih (x q.1 q.2 h).2 fun s hs => hf s (List.mem_cons_of_mem _ hs)
    dsimp only at hfirst
    rw [serveAll, hrest, hfirst, List.length_cons]
    omega

end Executor

/-! ### Below the cache -/

/-- From one host to the other no cache has been used and nothing but anomalies recorded. -/
structure Host.Aloof (h h' : Host) : Prop where
  caches : h'.caches = h.caches
  metrics : ∃ kinds : List String, h'.metrics = h.metrics ++ kinds.map .anomaly

theorem Host.Aloof.refl (h : Host) : h.Aloof h := ⟨rfl, [], (List.append_nil _).symm⟩

/-- A pause spends time and nothing else. -/
theorem Host.Aloof.pause (h : Host) (ms : Nat) : h.Aloof { h with waited := h.waited + ms } :=
  ⟨rfl, [], (List.append_nil _).symm⟩

theorem Host.Aloof.trans {h h' h'' : Host} (hfirst : h.Aloof h') (hthen : h'.Aloof h'') : h.Aloof h'' := by
  obtain ⟨kinds, hkinds⟩ := hfirst.metrics
  obtain ⟨kinds', hkinds'⟩ := hthen.metrics
  refine ⟨hthen.caches.trans hfirst.caches, kinds ++ kinds', ?_⟩
  rw [hkinds', hkinds, List.map_append, List.append_assoc]

namespace Executor

/-- A terminal that yields one outcome after another, and uses no cache and records nothing but
anomalies. -/
structure Plays (o : Nat → Outcome) (terminal : Nat) (x : Executor Host) : Prop
    extends x.Yields o terminal where
  aloof : ∀ t ctx h, Host.Aloof h (x t ctx h).2

variable {o : Nat → Outcome} {terminal : Nat} {x : Executor Host}

/-- A prepared terminal plays its outcomes. -/
theorem plays_prepared (name : String) (terminal : Nat) (outcomes : List Outcome) :
    (prepared name terminal outcomes).Plays (fun i => outcomeAt outcomes (i - 1)) terminal where
  toYields := yields_prepared name terminal outcomes
  aloof _ _ _ := ⟨rfl, [], (List.append_nil _).symm⟩

/-- However often something aloof is tried, the tries are aloof. -/
theorem aloof_attemptLeft (hx : ∀ t ctx h, Host.Aloof h (x t ctx h).2) (p : RetryPolicy) (t : Tree)
    (ctx : Context) (left : Nat) (d : Dispatch) (h : Host) :
    Host.Aloof h
      (p.attemptLeft PipelineError.isRetryable Handling.pause ((Next.mk x).retry t ctx) left d h).2 := by
  have hcall : ∀ d h, Host.Aloof h ((Next.mk x).retry t ctx d h).2 := by
    intro d h
    cases hd : Manner.retry.mayFollow d with
    | true =>
      rw [Next.retry, Next.call_of_mayFollow _ hd]
      exact hx t ctx h
    | false =>
      rw [Next.retry, Next.call_of_not_mayFollow _ hd]
      exact .refl h
  induction left generalizing d h with
  | zero => exact hcall d h
  | succ left ih =>
    have htried := hcall d h
    cases ho : (Next.mk x).retry t ctx d h with
    | mk r h' =>
      obtain ⟨r, d'⟩ := r
      rw [ho] at htried
      cases hr : Outcome.settles r with
      | true =>
        rw [RetryPolicy.attemptLeft_of_settles p left ho hr]
        exact htried
      | false =>
        have hpause := Host.Aloof.pause h' (p.delay (p.limit - (left + 1)))
        rw [RetryPolicy.attemptLeft_of_not_settles p left ho hr]
        exact (htried.trans hpause).trans (ih d' _)

theorem aloof_retrying (hx : ∀ t ctx h, Host.Aloof h (x t ctx h).2) (p : RetryPolicy) (t : Tree)
    (ctx : Context) (h : Host) : Host.Aloof h ((Middleware.retrying p).around x t ctx h).2 :=
  aloof_attemptLeft hx p t ctx p.limit .idle h

end Executor

/-! ### One execution -/

/-- A middleware that logs, as a whole. -/
theorem Middleware.around_logging (pipeline : String) (x : Executor Host) (t : Tree) (ctx : Context)
    (h : Host) : (logging pipeline).around x t ctx h =
      ((x t ctx h).1, { (x t ctx h).2 with
        metrics := (x t ctx h).2.metrics ++ [.execution pipeline (Outcome.kind (x t ctx h).1)] }) := rfl

theorem update_self {α : Type} (f : Nat → α) (i : Nat) : update f i (f i) = f := by
  funext j
  by_cases hj : j = i
  · rw [update, if_pos hj, hj]
  · rw [update, if_neg hj]

/-- A look into a cache where nothing expires finds what there is. -/
theorem Host.lookup_of_lifetime_eq_none {cache : Nat} {h : Host} (hl : (h.caches cache).lifetime = none)
    (key : String) : Host.lookup cache key h =
      ((Keyed.lookup key (h.caches cache).entries).map Entry.value,
        { h with
          now := h.now + 1
          metrics := h.metrics ++ [.lookup (Keyed.lookup key (h.caches cache).entries).isSome] }) := by
  simp only [Host.lookup, Cache.get_of_lifetime_eq_none hl, update_self, Option.isSome_map]

/-- Before the matter is settled nothing has succeeded. -/
theorem Outcome.isOk_of_not_settles {r : Outcome} (h : Outcome.settles r = false) : r.isOk = false := by
  cases r with
  | ok rows => cases h
  | error e => rfl

/-- What an execution does after those of the past: it finds the rows of one of them, or none has had
success with its tree, and then the terminal is called until the matter is settled. -/
inductive Serving.Follows (o : Nat → Outcome) (terminal : Nat) (name : String) (past : List Serving)
    (s : Serving) : Prop
  | hit (e : Serving) (mem : e ∈ past) (tree : e.tree = s.tree) (rows : List Json)
      (found : e.outcome = .ok rows) (outcome : s.outcome = .ok rows)
      (calls : s.after.calls terminal = s.before.calls terminal)
      (metrics : s.after.metrics = s.before.metrics ++ [.lookup true] ++ [.execution name "success"])
  | miss (fresh : ¬ Success past s.tree)
      (called : s.before.calls terminal < s.after.calls terminal)
      (failed : ∀ i, s.before.calls terminal < i → i < s.after.calls terminal → (o i).isOk = false)
      (outcome : s.outcome = o (s.after.calls terminal)) (kinds : List String)
      (metrics : s.after.metrics = s.before.metrics ++ [.lookup false] ++ kinds.map .anomaly ++
        [.execution name (Outcome.kind s.outcome)])

/-- A cache without lifetime and with room for the results of some trees holds the rows of the executions
that have succeeded, under the texts of such trees. -/
structure Host.Remembers (cache : Nat) (trees : List Tree) (past : List Serving) (h : Host) : Prop where
  lifetime : (h.caches cache).lifetime = none
  room : trees.length ≤ (h.caches cache).capacity
  keys : ∀ q ∈ (h.caches cache).entries, ∃ t ∈ trees, q.1 = cacheKey t
  finds : ∀ t rows, (Keyed.lookup (cacheKey t) (h.caches cache).entries).map Entry.value = some rows ↔
    ∃ e ∈ past, e.tree = t ∧ e.outcome = .ok rows

namespace Host.Remembers

variable {o : Nat → Outcome} {terminal cache : Nat} {trees : List Tree} {past : List Serving} {h : Host}

/-- An empty cache remembers that nothing has been executed. -/
theorem of_empty (he : (h.caches cache).entries = []) (hl : (h.caches cache).lifetime = none)
    (hr : trees.length ≤ (h.caches cache).capacity) : h.Remembers cache trees [] where
  lifetime := hl
  room := hr
  keys := by simp [he]
  finds := by simp [he, Keyed.lookup]

/-- As long as there is a tree without a result there is room for it. -/
theorem size_lt (hr : h.Remembers cache trees past) {t : Tree} (ht : t ∈ trees)
    (hnone : Keyed.lookup (cacheKey t) (h.caches cache).entries = none) :
    (h.caches cache).size < (h.caches cache).capacity := by
  have hnew : cacheKey t ∉ (h.caches cache).entries.map Prod.fst := by
    intro hmem
    obtain ⟨q, hq, hkey⟩ := List.mem_map.1 hmem
    rw [Keyed.lookup_eq_find?, Option.map_eq_none_iff, List.find?_eq_none] at hnone
    exact hnone q hq (decide_eq_true hkey)
  have hnodup : (cacheKey t :: (h.caches cache).entries.map Prod.fst).Nodup :=
    List.nodup_cons.2 ⟨hnew, Keyed.nodup_of_increasing (h.caches cache).increasing⟩
  have hsubset : cacheKey t :: (h.caches cache).entries.map Prod.fst ⊆ trees.map cacheKey := by
    intro key hkey
    rcases List.mem_cons.1 hkey with rfl | hkey
    · exact List.mem_map_of_mem ht
    · obtain ⟨q, hq, rfl⟩ := List.mem_map.1 hkey
      obtain ⟨t', ht', he⟩ := hr.keys q hq
      exact he ▸ List.mem_map_of_mem ht'
  have hlength := (List.subperm_of_subset hnodup hsubset).length_le
  have hroom := hr.room
  simp only [List.length_cons, List.length_map] at hlength
  simp only [Cache.size]
  omega

/-- Only the cache matters. -/
theorem of_caches_eq (hr : h.Remembers cache trees past) {h' : Host}
    (hc : h'.caches cache = h.caches cache) : h'.Remembers cache trees past := by
  refine ⟨?_, ?_, ?_, ?_⟩ <;> rw [hc]
  · exact hr.lifetime
  · exact hr.room
  · exact hr.keys
  · exact hr.finds

/-- An execution that brings nothing new need not be remembered. -/
theorem concat (hr : h.Remembers cache trees past) {s : Serving}
    (hs : ∀ rows, s.outcome = .ok rows → ∃ e ∈ past, e.tree = s.tree ∧ e.outcome = .ok rows) :
    h.Remembers cache trees (past ++ [s]) where
  lifetime := hr.lifetime
  room := hr.room
  keys := hr.keys
  finds := by
    intro t rows
    rw [hr.finds]
    constructor
    · rintro ⟨e, he, hrest⟩
      exact ⟨e, List.mem_append_left _ he, hrest⟩
    · rintro ⟨e, he, rfl, hrows⟩
      rcases List.mem_append.1 he with he | he
      · exact ⟨e, he, rfl, hrows⟩
      · rw [List.mem_singleton.1 he] at hrows ⊢
        exact hs rows hrows

/-- The rows of the first success with a tree are kept for it. -/
theorem keep (hr : h.Remembers cache trees past) {s : Serving} (ht : s.tree ∈ trees)
    (hnone : Keyed.lookup (cacheKey s.tree) (h.caches cache).entries = none) {rows : List Json}
    (hs : s.outcome = .ok rows) :
    (Host.keep cache (cacheKey s.tree) rows h).2.Remembers cache trees (past ++ [s]) := by
  have hcache : (Host.keep cache (cacheKey s.tree) rows h).2.caches cache =
      (h.caches cache).insert h.now (cacheKey s.tree) rows := if_pos rfl
  rw [Cache.insert_of_size_lt (hr.size_lt ht hnone)] at hcache
  refine ⟨by rw [hcache]; exact hr.lifetime, by rw [hcache]; exact hr.room, ?_, ?_⟩
  · rw [hcache]
    intro q hq
    rcases Keyed.mem_insert hq with rfl | hq
    · exact ⟨s.tree, ht, rfl⟩
    · exact hr.keys q hq
  · intro t rows'
    rw [hcache, Keyed.lookup_insert]
    by_cases hkey : cacheKey s.tree = cacheKey t
    · have htree : s.tree = t := cacheKey_injective hkey
      subst htree
      rw [if_pos rfl]
      constructor
      · rintro ⟨⟩
        exact ⟨s, List.mem_append_right _ List.mem_cons_self, rfl, hs⟩
      · rintro ⟨e, he, htree, hrows⟩
        rcases List.mem_append.1 he with he | he
        · have hfound := (hr.finds s.tree rows').2 ⟨e, he, htree, hrows⟩
          rw [hnone] at hfound
          cases hfound
        · rw [List.mem_singleton.1 he, hs] at hrows
          cases hrows
          rfl
    · rw [if_neg hkey, hr.finds]
      constructor
      · rintro ⟨e, he, hrest⟩
        exact ⟨e, List.mem_append_left _ he, hrest⟩
      · rintro ⟨e, he, htree, hrows⟩
        rcases List.mem_append.1 he with he | he
        · exact ⟨e, he, htree, hrows⟩
        · rw [List.mem_singleton.1 he] at htree
          exact absurd (congrArg cacheKey htree) hkey

variable {x : Executor Host} {p : RetryPolicy} {name : String}

/-- Something is kept for a tree just if an execution of it has succeeded. -/
theorem holds_iff (hr : h.Remembers cache trees past) {t : Tree} :
    (h.caches cache).holds (cacheKey t) = true ↔ Serving.Success past t := by
  rw [Cache.holds, Option.isSome_iff_exists]
  constructor
  · rintro ⟨entry, hentry⟩
    obtain ⟨e, he, htree, hrows⟩ := (hr.finds t entry.value).1 (by rw [hentry]; rfl)
    exact ⟨e, he, htree, Serving.succeeded_of_ok hrows⟩
  · rintro ⟨e, he, htree, hsucceeded⟩
    obtain ⟨rows, hrows⟩ := Serving.exists_rows hsucceeded
    obtain ⟨entry, hentry, -⟩ := Option.map_eq_some_iff.1 ((hr.finds t rows).2 ⟨e, he, htree, hrows⟩)
    exact ⟨entry, hentry⟩

/-- All executions of a tree that have succeeded have the same rows. -/
theorem outcome_eq (hr : h.Remembers cache trees past) {e e' : Serving} (he : e ∈ past) (he' : e' ∈ past)
    (htree : e.tree = e'.tree) (hs : e.succeeded = true) (hs' : e'.succeeded = true) :
    e.outcome = e'.outcome := by
  obtain ⟨rows, hrows⟩ := Serving.exists_rows hs
  obtain ⟨rows', hrows'⟩ := Serving.exists_rows hs'
  have hfound := (hr.finds e.tree rows).2 ⟨e, he, rfl, hrows⟩
  have hfound' := (hr.finds e.tree rows').2 ⟨e', he', htree.symm, hrows'⟩
  rw [hfound] at hfound'
  rw [hrows, hrows', Option.some.inj hfound']

/-- One execution follows those of the past, and the cache remembers it. -/
theorem serve (hr : h.Remembers cache trees past) (hx : x.Plays o terminal) {t : Tree} (ht : t ∈ trees)
    (ctx : Context) {r : Outcome} {h' : Host}
    (he : (Pipeline.mk [.logging name, .caching cache, .retrying p] x).executeWith t ctx h = (r, h')) :
    Serving.Follows o terminal name past ⟨t, ctx, h, r, h'⟩ ∧
      h'.Remembers cache trees (past ++ [⟨t, ctx, h, r, h'⟩]) := by
  have hlookup := Host.lookup_of_lifetime_eq_none hr.lifetime (cacheKey t)
  simp only [Pipeline.executeWith_cons, Pipeline.executeWith_nil, Middleware.around_logging,
    Middleware.around_caching, hlookup] at he
  cases hfound : Keyed.lookup (cacheKey t) (h.caches cache).entries with
  | some entry =>
    obtain ⟨e, hmem, htree, hrows⟩ := (hr.finds t entry.value).1 (by rw [hfound]; rfl)
    simp only [hfound] at he
    cases he
    refine ⟨.hit e hmem htree entry.value hrows rfl rfl rfl, ?_⟩
    exact (hr.concat fun rows hs => ⟨e, hmem, htree, hrows.trans hs⟩).of_caches_eq rfl
  | none =>
    simp only [hfound, Option.map_none, Option.isSome_none] at he
    -- below the cache the terminal is called on a host that differs in the clock and the records
    have hcalls := (Executor.persists_retrying hx.persists Nat.one_pos p).calls t ctx
      { h with now := h.now + 1, metrics := h.metrics ++ [.lookup false] }
    have hout := (Executor.persists_retrying hx.persists Nat.one_pos p).outcome t ctx
      { h with now := h.now + 1, metrics := h.metrics ++ [.lookup false] }
    have haloof := Executor.aloof_retrying hx.aloof p t ctx
      { h with now := h.now + 1, metrics := h.metrics ++ [.lookup false] }
    cases hb : (Middleware.retrying p).around x t ctx
        { h with now := h.now + 1, metrics := h.metrics ++ [.lookup false] } with
    | mk r₂ h₂ =>
      rw [hb] at hcalls hout haloof
      dsimp only at hcalls hout
      obtain ⟨kinds, hkinds⟩ := haloof.metrics
      have hkept : h₂.Remembers cache trees past := hr.of_caches_eq (congrFun haloof.caches cache)
      have hmiss : ∀ h₃ : Host, h₃.calls = h₂.calls →
          h₃.metrics = h₂.metrics ++ [.execution name (Outcome.kind r₂)] →
          Serving.Follows o terminal name past ⟨t, ctx, h, r₂, h₃⟩ := by
        intro h₃ hcalls₃ hmetrics₃
        have hbudget : 0 < (p.limit + 1) * 1 := by omega
        have hfresh : ¬ Serving.Success past t := by
          rw [← hr.holds_iff, Cache.holds, hfound]
          exact Bool.false_ne_true
        refine .miss hfresh ?_ ?_ ?_ kinds ?_
        · show h.calls terminal < h₃.calls terminal
          rw [hcalls₃, hcalls]
          exact lt_lastCall o _ hbudget
        · intro i hi hlast
          have hlast : i < lastCall o (h.calls terminal) ((p.limit + 1) * 1) := by
            rw [← hcalls, ← hcalls₃]
            exact hlast
          exact Outcome.isOk_of_not_settles (not_settles_of_lt_lastCall o _ hi hlast)
        · show r₂ = o (h₃.calls terminal)
          rw [hcalls₃, hcalls, hout]
        · rw [hmetrics₃, hkinds]
      simp only [hb] at he
      cases r₂ with
      | error err =>
        cases he
        refine ⟨hmiss _ rfl rfl, .of_caches_eq (hkept.concat ?_) rfl⟩
        intro rows hs
        cases hs
      | ok rows =>
        cases he
        refine ⟨hmiss _ rfl rfl, (hkept.keep ht ?_ rfl).of_caches_eq rfl⟩
        rw [congrFun haloof.caches cache]
        exact hfound

/-- Every execution of a row follows those before it, and the cache remembers it. -/
theorem serveAll (hr : h.Remembers cache trees past) (hx : x.Plays o terminal)
    {asked : List (Tree × Context)} (ha : ∀ q ∈ asked, q.1 ∈ trees) {earlier later : List Serving}
    {s : Serving}
    (hs : ((Pipeline.mk [.logging name, .caching cache, .retrying p] x).executeWith.serveAll asked h).1 =
      earlier ++ s :: later) :
    s.Follows o terminal name (past ++ earlier) ∧
      s.after.Remembers cache trees (past ++ earlier ++ [s]) := by
  induction asked generalizing past h earlier with
  | nil => simp [Executor.serveAll] at hs
  | cons q asked ih =>
    have hstep := hr.serve hx (ha q List.mem_cons_self) q.2
      (rfl : (Pipeline.mk [.logging name, .caching cache, .retrying p] x).executeWith q.1 q.2 h = _)
    rw [Executor.serveAll] at hs
    cases earlier with
    | nil =>
      obtain ⟨rfl, -⟩ := List.cons.inj hs
      rw [List.append_nil]
      exact hstep
    | cons e earlier =>
      obtain ⟨rfl, hrest⟩ := List.cons.inj hs
      have hlater := ih hstep.2 (fun q' hq' => ha q' (List.mem_cons_of_mem _ hq')) hrest
      rw [List.append_assoc, List.singleton_append] at hlater
      exact hlater

end Host.Remembers

/-! ### What an execution counts -/

namespace Serving.Follows

variable {o : Nat → Outcome} {terminal : Nat} {name : String} {past : List Serving} {s : Serving}

/-- Every execution is counted by its kind of outcome. -/
theorem level_executions (hs : s.Follows o terminal name past) (kind : String) :
    Metric.level s.after.metrics (Metric.executions name kind) =
      Metric.level s.before.metrics (Metric.executions name kind) +
        if Outcome.kind s.outcome = kind then 1 else 0 := by
  cases hs with
  | hit e mem tree rows found outcome calls metrics =>
    rw [metrics, outcome]
    simp only [Metric.level_append, Metric.level_lookup_executions, Metric.level_execution_executions,
      Nat.add_zero]
    rfl
  | miss fresh called failed outcome kinds metrics =>
    rw [metrics]
    simp only [Metric.level_append, Metric.level_lookup_executions, Metric.level_execution_executions,
      Metric.level_anomalies_executions, Nat.add_zero]

/-- Every execution is counted as a success or as an error. -/
theorem level_success_add_error (hs : s.Follows o terminal name past) :
    Metric.level s.after.metrics (Metric.executions name "success") +
        Metric.level s.after.metrics (Metric.executions name "error") =
      Metric.level s.before.metrics (Metric.executions name "success") +
        Metric.level s.before.metrics (Metric.executions name "error") + 1 := by
  rw [hs.level_executions, hs.level_executions]
  cases s.outcome with
  | ok rows =>
    simp [Outcome.kind]
    omega
  | error e =>
    simp [Outcome.kind]
    omega

/-- An execution that has succeeded is counted as a success. -/
theorem counts_success (hs : s.Follows o terminal name past) (hsucceeded : s.succeeded = true) :
    s.Counts (Metric.executions name "success") := by
  obtain ⟨rows, hrows⟩ := exists_rows hsucceeded
  rw [Counts, hs.level_executions, hrows]
  rfl

/-- Every execution is counted as one look into the cache, which finds something if an execution of the
tree has succeeded before. -/
theorem level_lookups (hs : s.Follows o terminal name past) :
    ∃ found : Bool, (found = true ↔ Success past s.tree) ∧
      ∀ hit, Metric.level s.after.metrics (Metric.lookups hit) =
        Metric.level s.before.metrics (Metric.lookups hit) + if found = hit then 1 else 0 := by
  cases hs with
  | hit e mem tree rows found outcome calls metrics =>
    refine ⟨true, ⟨fun _ => ⟨e, mem, tree, succeeded_of_ok found⟩, fun _ => rfl⟩, fun hit => ?_⟩
    rw [metrics]
    simp only [Metric.level_append, Metric.level_lookup_lookups, Metric.level_execution_lookups,
      Nat.add_zero]
  | miss fresh called failed outcome kinds metrics =>
    refine ⟨false, ⟨fun h => absurd h Bool.false_ne_true, fun h => absurd h fresh⟩, fun hit => ?_⟩
    rw [metrics]
    simp only [Metric.level_append, Metric.level_lookup_lookups, Metric.level_execution_lookups,
      Metric.level_anomalies_lookups, Nat.add_zero]

theorem level_hit_add_miss (hs : s.Follows o terminal name past) :
    Metric.level s.after.metrics (Metric.lookups true) +
        Metric.level s.after.metrics (Metric.lookups false) =
      Metric.level s.before.metrics (Metric.lookups true) +
        Metric.level s.before.metrics (Metric.lookups false) + 1 := by
  obtain ⟨found, -, hlevel⟩ := hs.level_lookups
  rw [hlevel, hlevel]
  cases found with
  | true =>
    simp
    omega
  | false =>
    simp
    omega

/-- A look has found something just if an execution of the tree has succeeded before. -/
theorem counts_hit_iff (hs : s.Follows o terminal name past) :
    s.Counts (Metric.lookups true) ↔ Success past s.tree := by
  obtain ⟨found, hfound, hlevel⟩ := hs.level_lookups
  rw [← hfound, Counts, hlevel true]
  cases found <;> simp

/-- It has found nothing just if there is no such execution. -/
theorem counts_miss_iff (hs : s.Follows o terminal name past) :
    s.Counts (Metric.lookups false) ↔ ¬ Success past s.tree := by
  obtain ⟨found, hfound, hlevel⟩ := hs.level_lookups
  rw [← hfound, Counts, hlevel false]
  cases found <;> simp

/-- Where an execution of the tree has succeeded there is success without a call. -/
theorem of_success (hs : s.Follows o terminal name past) (hp : Success past s.tree) :
    s.after.calls terminal = s.before.calls terminal ∧ s.succeeded = true := by
  cases hs with
  | hit e mem tree rows found outcome calls metrics => exact ⟨calls, succeeded_of_ok outcome⟩
  | miss fresh called failed outcome kinds metrics => exact absurd hp fresh

/-- Where none has succeeded the terminal is called. -/
theorem of_not_success (hs : s.Follows o terminal name past) (hp : ¬ Success past s.tree) :
    s.before.calls terminal < s.after.calls terminal := by
  cases hs with
  | hit e mem tree rows found outcome calls metrics =>
    exact absurd ⟨e, mem, tree, succeeded_of_ok found⟩ hp
  | miss fresh called failed outcome kinds metrics => exact called

/-- An execution that fails comes after no success, and is none. -/
theorem not_success_of_failed (hs : s.Follows o terminal name past) (hfailed : s.succeeded = false) :
    ¬ Success (past ++ [s]) s.tree := by
  rw [success_append, success_singleton]
  rintro (hbefore | ⟨-, hsucceeded⟩)
  · simp [(hs.of_success hbefore).2] at hfailed
  · simp [hsucceeded] at hfailed

/-- During an execution the terminal returns no success, or it returns one, for a tree that had none. -/
theorem countP_returned (hs : s.Follows o terminal name past) :
    (s.returned o terminal).countP Except.isOk = 0 ∨
      (s.returned o terminal).countP Except.isOk = 1 ∧ s.succeeded = true ∧ ¬ Success past s.tree := by
  cases hs with
  | hit e mem tree rows found outcome calls metrics =>
    left
    rw [returned, calls, Nat.sub_self]
    rfl
  | miss fresh called failed outcome kinds metrics =>
    obtain ⟨n, hn⟩ : ∃ n, s.after.calls terminal = s.before.calls terminal + 1 + n :=
      Nat.exists_eq_add_of_le called
    have hlength : s.after.calls terminal - s.before.calls terminal = n + 1 := by omega
    -- all but the last call have failed
    have hbefore : ((List.range n).map fun i => o (s.before.calls terminal + 1 + i)).countP Except.isOk = 0 := by
      rw [List.countP_eq_zero]
      intro r hr
      obtain ⟨i, hi, rfl⟩ := List.mem_map.1 hr
      have hi := List.mem_range.1 hi
      rw [failed _ (by omega) (by omega)]
      exact Bool.false_ne_true
    have hlast : o (s.before.calls terminal + 1 + n) = s.outcome := by rw [outcome, hn]
    rw [returned, hlength, List.range_succ, List.map_append, List.countP_append, hbefore, Nat.zero_add,
      List.map_singleton, hlast, List.countP_singleton]
    cases hsucceeded : s.succeeded with
    | false =>
      left
      exact if_neg (Bool.eq_false_iff.1 hsucceeded)
    | true =>
      right
      exact ⟨if_pos hsucceeded, rfl, fresh⟩

end Serving.Follows

section Once

open Classical

variable {o : Nat → Outcome} {terminal : Nat} {name : String}

/-- If every execution follows those before it, the terminal returns success at most once for a tree, and
only if an execution of the tree has succeeded. -/
theorem Serving.countP_returned_le {served : List Serving}
    (hall : ∀ earlier s later, served = earlier ++ s :: later → s.Follows o terminal name earlier)
    (t : Tree) :
    ((served.filter fun s => s.tree = t).flatMap (returned o terminal)).countP Except.isOk ≤ 1 ∧
      (((served.filter fun s => s.tree = t).flatMap (returned o terminal)).countP Except.isOk ≠ 0 →
        Success served t) := by
  induction served using List.reverseRecOn with
  | nil => simp
  | append_singleton served s ih =>
    obtain ⟨hle, hsome⟩ := ih fun earlier s' later he => hall earlier s' (later ++ [s]) (by simp [he])
    have hs := hall served s [] rfl
    rw [List.filter_append, List.flatMap_append, List.countP_append, success_append, success_singleton]
    by_cases htree : s.tree = t
    · subst htree
      have hlast : ([s].filter fun s' => s'.tree = s.tree).flatMap (returned o terminal) =
          s.returned o terminal := by simp
      rw [hlast]
      rcases hs.countP_returned with hzero | ⟨hone, hsucceeded, hnone⟩
      · rw [hzero, Nat.add_zero]
        exact ⟨hle, fun hne => .inl (hsome hne)⟩
      · have hbefore := Decidable.not_not.1 (mt hsome hnone)
        rw [hbefore, hone]
        exact ⟨Nat.le_refl 1, fun _ => .inr ⟨rfl, hsucceeded⟩⟩
    · have hlast : ([s].filter fun s' => s'.tree = t).flatMap (returned o terminal) = [] := by
        simp [htree]
      rw [hlast, List.countP_nil, Nat.add_zero]
      exact ⟨hle, fun hne => .inl (hsome hne)⟩

end Once

/-! ### Conservation -/

open Classical in
/-- **Logging around a cache around a layer that tries again, with an empty cache at first in which nothing
expires and which has room for the results of all trees that are asked for.  Then whatever the terminal
returns:**

* the executions that are counted as successes or errors are as many as the executions, and so are the
  looks that are counted as hits or misses;
* an execution is a hit just if an earlier execution of its tree has succeeded.  It is counted as a success,
  has the rows of every such execution, and does not call the terminal;
* after an execution that failed nothing is kept for its tree, and the next execution of the tree is a miss
  and calls the terminal;
* the terminal returns success at most once for a tree. -/
theorem Pipeline.serveAll_conserves {o : Nat → Outcome} {terminal cache : Nat} {x : Executor Host}
    (hx : x.Plays o terminal) (name : String) (p : RetryPolicy) {h : Host}
    (hempty : (h.caches cache).entries = []) (hlifetime : (h.caches cache).lifetime = none)
    {asked : List (Tree × Context)} {trees : List Tree} (ha : ∀ q ∈ asked, q.1 ∈ trees)
    (hroom : trees.length ≤ (h.caches cache).capacity) {served : List Serving} {h' : Host}
    (hserved : (mk [.logging name, .caching cache, .retrying p] x).executeWith.serveAll asked h =
      (served, h')) :
    served.map (fun s => (s.tree, s.context)) = asked ∧
    Metric.level h'.metrics (Metric.executions name "success") +
        Metric.level h'.metrics (Metric.executions name "error") =
      Metric.level h.metrics (Metric.executions name "success") +
        Metric.level h.metrics (Metric.executions name "error") + asked.length ∧
    Metric.level h'.metrics (Metric.lookups true) + Metric.level h'.metrics (Metric.lookups false) =
      Metric.level h.metrics (Metric.lookups true) + Metric.level h.metrics (Metric.lookups false) +
        asked.length ∧
    (∀ earlier s later, served = earlier ++ s :: later →
      (s.Counts (Metric.lookups true) ↔ Serving.Success earlier s.tree) ∧
      (s.Counts (Metric.lookups true) →
        s.Counts (Metric.executions name "success") ∧ s.after.calls terminal = s.before.calls terminal ∧
        s.succeeded = true ∧
        ∀ e ∈ earlier, e.tree = s.tree → e.succeeded = true → s.outcome = e.outcome) ∧
      (s.succeeded = false →
        (s.after.caches cache).holds (cacheKey s.tree) = false ∧
        ∀ between next rest, later = between ++ next :: rest → next.tree = s.tree →
          (∀ e ∈ between, e.tree ≠ s.tree) →
          next.Counts (Metric.lookups false) ∧ ¬ next.Counts (Metric.lookups true) ∧
            next.before.calls terminal < next.after.calls terminal)) ∧
    ∀ t : Tree,
      ((served.filter fun s => s.tree = t).flatMap (Serving.returned o terminal)).countP Except.isOk ≤ 1 := by
  have hstart : h.Remembers cache trees [] := .of_empty hempty hlifetime hroom
  have hlist := congrArg Prod.fst hserved
  have hlast := congrArg Prod.snd hserved
  dsimp only at hlist hlast
  have hall : ∀ earlier s later, served = earlier ++ s :: later →
      s.Follows o terminal name earlier ∧ s.after.Remembers cache trees (earlier ++ [s]) := by
    intro earlier s later he
    exact hstart.serveAll hx ha (hlist.trans he)
  have hfollows : ∀ s ∈ served, ∃ earlier, s.Follows o terminal name earlier := by
    intro s hs
    obtain ⟨earlier, later, he⟩ := List.append_of_mem hs
    exact ⟨earlier, (hall earlier s later he).1⟩
  refine ⟨?_, ?_, ?_, ?_, fun t => (Serving.countP_returned_le (fun earlier s later he =>
    (hall earlier s later he).1) t).1⟩
  · rw [← hlist, Executor.serveAll_asked]
  · rw [← hlast]
    refine Executor.serveAll_sum _ (f := fun h => Metric.level h.metrics (Metric.executions name "success") +
      Metric.level h.metrics (Metric.executions name "error")) asked h fun s hs => ?_
    obtain ⟨earlier, hs⟩ := hfollows s (hlist ▸ hs)
    exact hs.level_success_add_error
  · rw [← hlast]
    refine Executor.serveAll_sum _ (f := fun h => Metric.level h.metrics (Metric.lookups true) +
      Metric.level h.metrics (Metric.lookups false)) asked h fun s hs => ?_
    obtain ⟨earlier, hs⟩ := hfollows s (hlist ▸ hs)
    exact hs.level_hit_add_miss
  · intro earlier s later he
    obtain ⟨hs, hkept⟩ := hall earlier s later he
    refine ⟨hs.counts_hit_iff, fun hhit => ?_, fun hfailed => ?_⟩
    · obtain ⟨hcalls, hsucceeded⟩ := hs.of_success (hs.counts_hit_iff.1 hhit)
      refine ⟨hs.counts_success hsucceeded, hcalls, hsucceeded, fun e hmem htree hsucc => ?_⟩
      exact hkept.outcome_eq (List.mem_append_right _ List.mem_cons_self)
        (List.mem_append_left _ hmem) htree.symm hsucceeded hsucc
    · have huntil := hs.not_success_of_failed hfailed
      refine ⟨Bool.eq_false_iff.2 (mt hkept.holds_iff.1 huntil), fun between next rest hlater htree hother => ?_⟩
      have hsplit : served = (earlier ++ [s] ++ between) ++ next :: rest := by simp [he, hlater]
      have hnext := (hall _ next rest hsplit).1
      have hnone : ¬ Serving.Success (earlier ++ [s] ++ between) next.tree := by
        rw [Serving.success_append, htree]
        rintro (hbefore | ⟨e, hmem, hsame, -⟩)
        · exact huntil hbefore
        · exact hother e hmem hsame
      exact ⟨hnext.counts_miss_iff.2 hnone, mt hnext.counts_hit_iff.1 hnone, hnext.of_not_success hnone⟩

/-- Two trees, the one asked for twice and the other three times. -/
def fiveAsked : List (Tree × Context) :=
  [(⟨"a", .and, []⟩, {}), (⟨"b", .or, []⟩, {}), (⟨"a", .and, []⟩, {}), (⟨"b", .or, []⟩, {}),
    (⟨"b", .or, []⟩, {})]

/-- A failure that passes, and one that does not. -/
def recovering : List Outcome :=
  [.error (.execution "down"), .ok [.null], .error .missingStage, .ok [.bool true]]

/-- Caches for two results that do not expire. -/
def roomyHost : Host := { caches := fun _ => { capacity := 2, increasing := increasing_noRows } }

/-- Of five executions the second fails, and its tree is a miss again; the third and the last are hits. -/
theorem Pipeline.serveAll_conserves_fiveAsked :
    ∃ s₁ s₂ s₃ s₄ s₅ h',
      (mk [.logging "p", .caching 0, .retrying (.exponential 1 100)]
        (.prepared "t" 0 recovering)).executeWith.serveAll fiveAsked roomyHost = ([s₁, s₂, s₃, s₄, s₅], h') ∧
      Metric.level h'.metrics (Metric.executions "p" "success") +
        Metric.level h'.metrics (Metric.executions "p" "error") = 5 ∧
      Metric.level h'.metrics (Metric.lookups true) + Metric.level h'.metrics (Metric.lookups false) = 5 ∧
      s₂.succeeded = false ∧ s₄.Counts (Metric.lookups false) ∧
      s₃.Counts (Metric.lookups true) ∧ s₃.outcome = s₁.outcome ∧
      s₅.Counts (Metric.lookups true) ∧ s₅.outcome = s₄.outcome ∧ h'.calls 0 = 4 := by
  refine ⟨_, _, _, _, _, _, rfl, ?_⟩
  have htrees : ∀ q ∈ fiveAsked, q.1 ∈ [(⟨"a", .and, []⟩ : Tree), ⟨"b", .or, []⟩] := by simp [fiveAsked]
  obtain ⟨-, hexecutions, hlookups, hall, -⟩ :=
    Pipeline.serveAll_conserves (Executor.plays_prepared "t" 0 recovering) "p" (.exponential 1 100)
      (rfl : (roomyHost.caches 0).entries = []) rfl htrees (Nat.le_refl 2) rfl
  obtain ⟨-, -, hsecond⟩ := hall [_] _ _ rfl
  obtain ⟨hthird, hfound, -⟩ := hall [_, _] _ _ rfl
  obtain ⟨hfifth, hkept, -⟩ := hall [_, _, _, _] _ [] rfl
  have hmiss := ((hsecond rfl).2 [_] _ _ rfl rfl (List.forall_mem_singleton.2 (by simp))).1
  have hhit := hthird.2 ⟨_, List.mem_cons_self, rfl, rfl⟩
  have hhit' := hfifth.2 ⟨_, List.mem_append_right [_, _, _] List.mem_cons_self, rfl, rfl⟩
  refine ⟨hexecutions, hlookups, rfl, hmiss, hhit, ?_, hhit', ?_, rfl⟩
  · exact (hfound hhit).2.2.2 _ List.mem_cons_self rfl rfl
  · exact (hkept hhit').2.2.2 _ (List.mem_append_right [_, _, _] List.mem_cons_self) rfl rfl

end Sieve
