import Sieve.Pipeline.Script
import Sieve.Proofs.Pipeline.Transparency

/-!
# Whose answer a caller gets

A cache keeps results by the text of the tree, and the context is no part of it.  Where the terminal
looks at the context, a caller may get what another one has been answered.

* `Executor.Determined`: executors whose outcome is a function of the tree and the context;
* `Pipeline.caching_not_isolated`: around such a terminal the outcome of a call need not be the one for
  its own context;
* `Host.Lends` is what remains true of a cache: whatever is kept for a tree has been the answer of the
  terminal to an earlier call for this tree, in the context of that call;
* `Pipeline.outcomes_caching`: so every outcome is the one for the tree and for the context of the call,
  or it is a success and the one that an earlier call for the same tree got in its own context.
-/

namespace Sieve

/-- The outcome of an executor is a function of the tree and the context, and it leaves a cache alone. -/
structure Executor.Determined (f : Tree → Context → Outcome) (cache : Nat) (x : Executor Host) : Prop where
  outcome : ∀ t ctx h, (x t ctx h).1 = f t ctx
  caches : ∀ t ctx h, (x t ctx h).2.caches cache = h.caches cache

/-- A call with its outcome. -/
abbrev Served := Call × Outcome

/-- An outcome for a tree that somebody got before, in the context of that call. -/
def Served.Lends (f : Tree → Context → Outcome) (t : Tree) (r : Outcome) (p : Served) : Prop :=
  p.1.tree = t ∧ p.2 = r ∧ r = f t p.1.context ∧ ∃ rows, r = .ok rows

/-- What a cache keeps for a tree is an answer to an earlier call for this tree. -/
def Host.Lends (f : Tree → Context → Outcome) (cache : Nat) (past : List Served) (h : Host) : Prop :=
  h.Keeps cache fun key rows => ∀ t, cacheKey t = key → ∃ p ∈ past, p.Lends f t (.ok rows)

namespace Host.Lends

variable {f : Tree → Context → Outcome} {cache : Nat} {past : List Served} {h : Host}

/-- One more call in the past does no harm. -/
theorem concat (hl : h.Lends f cache past) (p : Served) : h.Lends f cache (past ++ [p]) := by
  intro q hq t ht
  obtain ⟨p', hp', hlends⟩ := hl q hq t ht
  exact ⟨p', List.mem_append_left _ hp', hlends⟩

/-- What is found has been somebody's answer. -/
theorem found (hl : h.Lends f cache past) {t : Tree} {rows : List Json}
    (hf : (Host.lookup cache (cacheKey t) h).1 = some rows) : ∃ p ∈ past, p.Lends f t (.ok rows) :=
  Host.Keeps.found hl hf t rfl

/-- An answer of the last call may be kept for its tree. -/
theorem keep (hl : h.Lends f cache past) {c : Call} {rows : List Json}
    (hr : f c.tree c.context = .ok rows) :
    (Host.keep cache (cacheKey c.tree) rows h).2.Lends f cache (past ++ [(c, .ok rows)]) := by
  refine Host.Keeps.keep (hl.concat (c, .ok rows)) cache fun t ht => ?_
  rw [cacheKey_injective ht]
  exact ⟨(c, .ok rows), List.mem_append_right _ List.mem_cons_self, rfl, rfl, hr.symm, rows, rfl⟩

end Host.Lends

/-! ### Calls of a caching pipeline -/

/-- The outcome of a call is the one for its own context or is lent by an earlier call, and the cache goes
on lending nothing else. -/
def Executor.Lends (f : Tree → Context → Outcome) (cache : Nat) (x : Executor Host) : Prop :=
  ∀ (past : List Served) (c : Call) (h : Host), h.Lends f cache past →
    ((x c.tree c.context h).1 = f c.tree c.context ∨
      ∃ p ∈ past, p.Lends f c.tree (x c.tree c.context h).1) ∧
    (x c.tree c.context h).2.Lends f cache (past ++ [(c, (x c.tree c.context h).1)])

namespace Executor

variable {f : Tree → Context → Outcome} {cache : Nat} {x : Executor Host}

/-- A cache around a terminal. -/
theorem lends_caching (hx : x.Determined f cache) :
    ((Middleware.caching cache).around x).Lends f cache := by
  intro past c h hl
  rw [Middleware.around_caching]
  have hlookup : (Host.lookup cache (cacheKey c.tree) h).2.Lends f cache past :=
    Host.Keeps.lookup hl cache (cacheKey c.tree)
  cases hf : Host.lookup cache (cacheKey c.tree) h with
  | mk found h' =>
    rw [hf] at hlookup
    cases found with
    | some rows => exact ⟨.inr (hl.found (by rw [hf])), hlookup.concat _⟩
    | none =>
      have hr := hx.outcome c.tree c.context h'
      have hcaches := hx.caches c.tree c.context h'
      cases hb : x c.tree c.context h' with
      | mk outcome h'' =>
        rw [hb] at hr hcaches
        have hbelow : h''.Lends f cache past := Host.Keeps.of_caches_eq hlookup hcaches
        dsimp only at hr
        simp only [hb]
        cases outcome with
        | ok rows => exact ⟨.inl hr, hbelow.keep hr.symm⟩
        | error e => exact ⟨.inl hr, hbelow.concat _⟩

/-- Any number of calls, after those of the past. -/
theorem outcomes_of_lends (hx : x.Lends f cache) (calls : List Call) {past : List Served} {h : Host}
    (hl : h.Lends f cache past) (hc : ∀ c ∈ calls, c.Spares [cache]) :
    ∀ before c r after, calls.zip (x.outcomes calls h) = before ++ (c, r) :: after →
      r = f c.tree c.context ∨ ∃ p ∈ past ++ before, p.Lends f c.tree r := by
  induction calls generalizing past h with
  | nil =>
    intro before c r after he
    simp at he
  | cons c₀ calls ih =>
    have hbefore : (c₀.before h).Lends f cache past :=
      Host.Keeps.of_caches_eq hl (hc c₀ List.mem_cons_self h cache List.mem_cons_self)
    obtain ⟨hr, hl'⟩ := hx past c₀ _ hbefore
    intro before c r after he
    rw [outcomes, List.zip_cons_cons] at he
    cases before with
    | nil =>
      cases he
      rw [List.append_nil]
      exact hr
    | cons p before =>
      obtain ⟨rfl, hzip⟩ := List.cons.inj he
      have hrest := ih hl' (fun c' hc' => hc c' (List.mem_cons_of_mem _ hc')) before c r after hzip
      rw [List.append_assoc, List.singleton_append] at hrest
      exact hrest

theorem length_outcomes (x : Executor Host) (calls : List Call) (h : Host) :
    (x.outcomes calls h).length = calls.length := by
  induction calls generalizing h with
  | nil => rfl
  | cons c calls ih => rw [outcomes, List.length_cons, List.length_cons, ih]

end Executor

/-- **Around a terminal that looks at nothing but the tree and the context, with an empty cache at first,
every call has an outcome.  It is that of the terminal for the tree and the context of the call, or it
is a success that an earlier call for the same tree got as the outcome of the terminal for its own
context.** -/
theorem Pipeline.outcomes_caching {f : Tree → Context → Outcome} {cache : Nat} {x : Executor Host}
    (hx : x.Determined f cache) {h : Host} (hempty : (h.caches cache).entries = [])
    {calls : List Call} (hc : ∀ c ∈ calls, c.Spares [cache]) :
    ((Pipeline.mk [.caching cache] x).executeWith.outcomes calls h).length = calls.length ∧
    ∀ before c r after,
      calls.zip ((Pipeline.mk [.caching cache] x).executeWith.outcomes calls h) =
        before ++ (c, r) :: after →
      r = f c.tree c.context ∨
        ∃ p ∈ before, p.1.tree = c.tree ∧ p.2 = r ∧ r = f c.tree p.1.context ∧ ∃ rows, r = .ok rows := by
  refine ⟨Executor.length_outcomes _ calls h, ?_⟩
  have hnone : h.Lends f cache [] := .of_empty hempty
  exact Executor.outcomes_of_lends (Executor.lends_caching hx) calls hnone hc

/-- What an echo answers. -/
def echoed (t : Tree) (ctx : Context) : Outcome := (Executor.echo t ctx ()).1

theorem Executor.determined_echo (cache : Nat) : Executor.Determined echoed cache Executor.echo :=
  ⟨fun _ _ _ => rfl, fun _ _ _ => rfl⟩

/-- A tree without conditions. -/
def askingAll : Tree := ⟨"root", .and, []⟩

/-- The context of a tenant. -/
def tenancy (tenant : String) : Context where
  attributes := [("tenant", .str tenant)]

theorem echoed_tenancy (tenant : String) : echoed askingAll (tenancy tenant) = .ok [.obj
    [("attributes", .obj [("tenant", .str tenant)]), ("combinator", .str "and"), ("nodes", .nat 1),
     ("root", .str "root"), ("tenant", .str tenant)]] := rfl

theorem echoed_tenancy_ne : echoed askingAll (tenancy "a") ≠ echoed askingAll (tenancy "b") := by
  simp [echoed_tenancy]

/-- Two tenants ask for the same tree, and the second asks for another one. -/
def twoTenants : List Call :=
  [⟨id, askingAll, tenancy "a"⟩, ⟨id, askingAll, tenancy "b"⟩,
    ⟨id, { askingAll with combinator := .or }, tenancy "b"⟩]

theorem spares_twoTenants : ∀ c ∈ twoTenants, c.Spares [0] := by
  intro c hc
  simp only [twoTenants, List.mem_cons, List.not_mem_nil, or_false] at hc
  rcases hc with rfl | rfl | rfl <;> exact fun _ _ _ => rfl

/-- The second tenant gets for the first tree what the first one got. -/
theorem outcomes_twoTenants :
    (Pipeline.mk [.caching 0] Executor.echo).executeWith.outcomes twoTenants {} =
      [echoed askingAll (tenancy "a"), echoed askingAll (tenancy "a"),
        echoed { askingAll with combinator := .or } (tenancy "b")] := rfl

theorem Pipeline.outcomes_caching_twoTenants :
    ∃ p ∈ [(twoTenants[0], echoed askingAll (tenancy "a"))],
      p.1.tree = askingAll ∧ p.2 = echoed askingAll (tenancy "a") ∧
        echoed askingAll (tenancy "a") = echoed askingAll p.1.context ∧
        ∃ rows, echoed askingAll (tenancy "a") = .ok rows := by
  have hall := (outcomes_caching (Executor.determined_echo 0) (h := {}) rfl spares_twoTenants).2
  rw [outcomes_twoTenants] at hall
  -- the second outcome is not the one for its own context, so it must be lent
  exact (hall [_] twoTenants[1] _ [_] rfl).resolve_left echoed_tenancy_ne

/-- The outcome of a call need not be that of the terminal for its own context. -/
theorem Pipeline.caching_not_isolated :
    ¬ ∀ (f : Tree → Context → Outcome) (cache : Nat) (x : Executor Host) (h : Host) (calls : List Call),
      x.Determined f cache → (h.caches cache).entries = [] → (∀ c ∈ calls, c.Spares [cache]) →
      (Pipeline.mk [.caching cache] x).executeWith.outcomes calls h =
        calls.map fun c => f c.tree c.context := by
  intro hall
  have h := hall echoed 0 Executor.echo {} twoTenants (Executor.determined_echo 0) rfl spares_twoTenants
  rw [outcomes_twoTenants, twoTenants, List.map_cons, List.map_cons] at h
  exact echoed_tenancy_ne (List.cons.inj (List.cons.inj h).2).1

end Sieve
