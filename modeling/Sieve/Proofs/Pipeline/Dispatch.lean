import Sieve.Pipeline.Basic

/-!
# What a handle lets through

A middleware reaches what is below it through a handle, as often as it likes and in either manner.  The
handle remembers no more than a `Dispatch`, and decides by it.

* `Executor.recorded`: an executor that takes down each of its executions, so that it can be told
  whether a call has executed anything;
* `Handle`: a handle in use, with `Handle.call` and `Handle.callAll` for the calls through it;
* `Manner.MayExecute`: when a call is to be let through, told by the executions so far and not by the
  dispatch;
* `Handle.Kept`: the dispatch tells how the executions so far have ended, and only the last of them may
  have succeeded.  Every call keeps this (`Handle.kept_call`), so none finds the dispatch running
  (`Handle.callAll_not_running`);
* `Handle.guarded`: after any calls, a call goes through if it is to be let through, and else it is
  refused and leaves no trace.
-/

namespace Sieve

variable {σ : Type}

/-- An execution of what is below a middleware. -/
structure Execution where
  tree : Tree
  context : Context
  outcome : Outcome

namespace Execution

/-- Whether an execution has succeeded. -/
def succeeded (e : Execution) : Bool := e.outcome.isOk

/-- What an execution leaves in the dispatch. -/
def dispatch (e : Execution) : Dispatch := .after e.outcome

end Execution

/-- An executor that takes down its executions. -/
def Executor.recorded (x : Executor σ) : Executor (σ × List Execution) := fun t ctx (s, past) =>
  ((x t ctx s).1, (x t ctx s).2, past ++ [⟨t, ctx, (x t ctx s).1⟩])

/-- A call through a handle, and what becomes of the state before it. -/
structure Dispatching (σ : Type) where
  before : σ → σ
  manner : Manner
  tree : Tree
  context : Context

/-- A handle in use: its dispatch, the state, and the executions so far. -/
structure Handle (σ : Type) where
  dispatch : Dispatch := .idle
  state : σ
  executions : List Execution := []

/-- When a call may execute what is below: if nothing has been executed yet, or if it is a retry and the
last execution failed. -/
def Manner.MayExecute (m : Manner) (past : List Execution) : Prop :=
  past = [] ∨ m = .retry ∧ ∃ e ∈ past.getLast?, e.succeeded = false

namespace Handle

/-- Calls what is below, the executions of which are taken down. -/
def call (x : Executor σ) (h : Handle σ) (q : Dispatching σ) : Outcome × Handle σ :=
  let ((r, d), s, past) := (Next.mk x.recorded).call q.manner q.tree q.context h.dispatch
    (q.before h.state, h.executions)
  (r, ⟨d, s, past⟩)

/-- Makes several calls. -/
def callAll (x : Executor σ) (h : Handle σ) (qs : List (Dispatching σ)) : Handle σ :=
  qs.foldl (fun h q => (h.call x q).2) h

/-- The handle after a call that is let through. -/
def executed (x : Executor σ) (h : Handle σ) (q : Dispatching σ) : Handle σ :=
  let (r, s) := x q.tree q.context (q.before h.state)
  ⟨.after r, s, h.executions ++ [⟨q.tree, q.context, r⟩]⟩

/-- The handle after a call that is refused: only what the middleware did before it is left. -/
def refused (h : Handle σ) (q : Dispatching σ) : Handle σ := { h with state := q.before h.state }

/-- The dispatch tells how the executions so far have ended, and none but the last of them has
succeeded. -/
structure Kept (h : Handle σ) : Prop where
  dispatch : h.dispatch = (h.executions.getLast?.map Execution.dispatch).getD .idle
  failed : ∀ e ∈ h.executions.dropLast, e.succeeded = false

variable {x : Executor σ} {h : Handle σ}

@[simp] theorem executions_refused (h : Handle σ) (q : Dispatching σ) :
    (h.refused q).executions = h.executions := rfl

@[simp] theorem executions_executed (x : Executor σ) (h : Handle σ) (q : Dispatching σ) :
    (h.executed x q).executions = h.executions ++
      [⟨q.tree, q.context, (x q.tree q.context (q.before h.state)).1⟩] := rfl

/-! ### One call -/

theorem call_of_mayFollow (q : Dispatching σ) (hq : q.manner.mayFollow h.dispatch = true) :
    h.call x q = ((x q.tree q.context (q.before h.state)).1, h.executed x q) := by
  rw [call, Next.call_of_mayFollow _ hq]
  rfl

theorem call_of_not_mayFollow (q : Dispatching σ) (hq : q.manner.mayFollow h.dispatch = false) :
    h.call x q = (.error .doubleDispatch, h.refused q) := by
  rw [call, Next.call_of_not_mayFollow _ hq]
  rfl

namespace Kept

theorem start (s : σ) : (Handle.mk .idle s []).Kept := ⟨rfl, fun _ he => by cases he⟩

/-- What the handle goes by is what the executions so far say. -/
theorem mayFollow_iff (hk : h.Kept) (m : Manner) :
    m.mayFollow h.dispatch = true ↔ m.MayExecute h.executions := by
  rw [hk.dispatch, Manner.MayExecute]
  rcases List.eq_nil_or_concat h.executions with hnil | ⟨past, e, hpast⟩
  · cases m <;> simp [hnil, Manner.mayFollow]
  · rw [hpast, List.concat_eq_append, List.getLast?_concat]
    obtain ⟨t, ctx, r⟩ := e
    cases m <;> cases r <;>
      simp [Manner.mayFollow, Execution.dispatch, Execution.succeeded, Dispatch.after, Except.isOk,
        Except.toBool]

/-- Where something more may be executed, nothing has succeeded yet. -/
theorem not_succeeded (hk : h.Kept) {m : Manner} (hm : m.MayExecute h.executions) :
    ∀ e ∈ h.executions, e.succeeded = false := by
  rcases hm with hnil | ⟨-, last, hlast, hfailed⟩
  · simp [hnil]
  · obtain ⟨past, hpast⟩ := List.getLast?_eq_some_iff.1 hlast
    intro e he
    rw [hpast] at he
    rcases List.mem_append.1 he with he | he
    · exact hk.failed e (by rw [hpast, List.dropLast_concat]; exact he)
    · rw [List.mem_singleton.1 he]
      exact hfailed

theorem executed (hk : h.Kept) (q : Dispatching σ) (hq : q.manner.MayExecute h.executions) :
    (h.executed x q).Kept where
  dispatch := by
    rw [executions_executed, List.getLast?_concat]
    rfl
  failed := by
    rw [executions_executed, List.dropLast_concat]
    exact hk.not_succeeded hq

theorem refused (hk : h.Kept) (q : Dispatching σ) : (h.refused q).Kept := ⟨hk.dispatch, hk.failed⟩

/-- A dispatch that tells how executions have ended is not running. -/
theorem not_running (hk : h.Kept) : h.dispatch ≠ .running := by
  rw [hk.dispatch]
  cases h.executions.getLast? with
  | none => exact Dispatch.noConfusion
  | some e =>
    obtain ⟨t, ctx, r⟩ := e
    cases r <;> exact Dispatch.noConfusion

end Kept

/-- A call goes through if it is to be let through. -/
theorem call_of_mayExecute (hk : h.Kept) (q : Dispatching σ) (hq : q.manner.MayExecute h.executions) :
    h.call x q = ((x q.tree q.context (q.before h.state)).1, h.executed x q) :=
  call_of_mayFollow q ((hk.mayFollow_iff q.manner).2 hq)

/-- Any other call is refused. -/
theorem call_of_not_mayExecute (hk : h.Kept) (q : Dispatching σ)
    (hq : ¬ q.manner.MayExecute h.executions) :
    h.call x q = (.error .doubleDispatch, h.refused q) := by
  refine call_of_not_mayFollow q ?_
  cases hm : q.manner.mayFollow h.dispatch with
  | false => rfl
  | true => exact absurd ((hk.mayFollow_iff q.manner).1 hm) hq

theorem kept_call (hk : h.Kept) (q : Dispatching σ) : (h.call x q).2.Kept := by
  by_cases hq : q.manner.MayExecute h.executions
  · rw [call_of_mayExecute hk q hq]
    exact hk.executed q hq
  · rw [call_of_not_mayExecute hk q hq]
    exact hk.refused q

/-! ### Any number of calls -/

theorem kept_callAll (hk : h.Kept) (qs : List (Dispatching σ)) : (h.callAll x qs).Kept := by
  induction qs generalizing h with
  | nil => exact hk
  | cons q qs ih => exact ih (kept_call hk q)

/-- Calls that are made one after another never find the dispatch running: a call has ended before the next
one begins. -/
theorem callAll_not_running (x : Executor σ) (s : σ) (qs : List (Dispatching σ)) :
    (Handle.callAll x ⟨.idle, s, []⟩ qs).dispatch ≠ .running :=
  (kept_callAll (Kept.start s) qs).not_running

/-- After a success nothing is executed any more. -/
theorem executions_callAll (hk : h.Kept) (hs : ∃ e ∈ h.executions, e.succeeded = true)
    (qs : List (Dispatching σ)) : (h.callAll x qs).executions = h.executions := by
  induction qs generalizing h with
  | nil => rfl
  | cons q qs ih =>
    obtain ⟨e, he, hsucceeded⟩ := hs
    have hq : ¬ q.manner.MayExecute h.executions := fun hm => by
      simp [hk.not_succeeded hm e he] at hsucceeded
    have hcall : (h.call x q).2 = h.refused q := by rw [call_of_not_mayExecute hk q hq]
    show ((h.call x q).2.callAll x qs).executions = _
    rw [hcall]
    exact ih (hk.refused q) ⟨e, he, hsucceeded⟩

/-- None but the last execution has succeeded, so at most one has. -/
theorem Kept.countP_succeeded_le (hk : h.Kept) : h.executions.countP Execution.succeeded ≤ 1 := by
  rcases List.eq_nil_or_concat h.executions with hnil | ⟨past, e, hpast⟩
  · simp [hnil]
  · have hfailed := hk.failed
    rw [hpast, List.concat_eq_append, List.dropLast_concat] at hfailed
    have hzero : past.countP Execution.succeeded = 0 :=
      List.countP_eq_zero.2 fun e he => by simp [hfailed e he]
    rw [hpast, List.concat_eq_append, List.countP_append, hzero, Nat.zero_add]
    exact List.countP_le_length

/-- **After any calls through a handle, a call executes what is below, once, if nothing has been executed
through this handle yet, or if it is a retry and the last execution failed.  Any other call is refused,
executes nothing and leaves the handle as it is.  So at most one execution succeeds, nothing is executed
after it, and a run is refused after every execution, a failed one too.** -/
theorem guarded (x : Executor σ) (s : σ) (calls : List (Dispatching σ)) (q : Dispatching σ)
    (h : Handle σ) (hh : Handle.callAll x ⟨.idle, s, []⟩ calls = h) :
    (q.manner.MayExecute h.executions →
      h.call x q = ((x q.tree q.context (q.before h.state)).1, h.executed x q)) ∧
    (¬ q.manner.MayExecute h.executions → h.call x q = (.error .doubleDispatch, h.refused q)) ∧
    h.executions.countP Execution.succeeded ≤ 1 ∧
    ((∃ e ∈ h.executions, e.succeeded = true) →
      ∀ later, (h.callAll x later).executions = h.executions) ∧
    (h.executions ≠ [] → q.manner = .run → h.call x q = (.error .doubleDispatch, h.refused q)) := by
  have hk : h.Kept := hh ▸ kept_callAll (Kept.start s) calls
  refine ⟨call_of_mayExecute hk q, call_of_not_mayExecute hk q, hk.countP_succeeded_le,
    executions_callAll hk, fun hne hrun => call_of_not_mayExecute hk q ?_⟩
  rintro (hnil | ⟨hretry, -⟩)
  · exact hne hnil
  · simp [hrun] at hretry

/-- An executor that fails the first time, and counts its executions. -/
def flaky : Executor Nat := fun _ _ n => (if n = 0 then .error (.execution "down") else .ok [], n + 1)

/-- A call without a condition, before which nothing happens. -/
def plain (m : Manner) : Dispatching Nat := ⟨id, m, ⟨"root", .and, []⟩, {}⟩

/-- The two executions of the flaky executor. -/
def twoExecutions : List Execution :=
  [⟨⟨"root", .and, []⟩, {}, .error (.execution "down")⟩, ⟨⟨"root", .and, []⟩, {}, .ok []⟩]

/-- After a run that failed and a run that was refused, a retry goes through; it succeeds, and whatever
comes then is refused. -/
theorem guarded_flaky :
    (⟨.idle, 0, []⟩ : Handle Nat).callAll flaky [plain .run, plain .run] =
        ⟨.failed, 1, twoExecutions.take 1⟩ ∧
      (⟨.failed, 1, twoExecutions.take 1⟩ : Handle Nat).call flaky (plain .run) =
        (.error .doubleDispatch, ⟨.failed, 1, twoExecutions.take 1⟩) ∧
      (⟨.failed, 1, twoExecutions.take 1⟩ : Handle Nat).call flaky (plain .retry) =
        (.ok [], ⟨.succeeded, 2, twoExecutions⟩) ∧
      (⟨.succeeded, 2, twoExecutions⟩ : Handle Nat).call flaky (plain .retry) =
        (.error .doubleDispatch, ⟨.succeeded, 2, twoExecutions⟩) ∧
      ∀ later, ((⟨.succeeded, 2, twoExecutions⟩ : Handle Nat).callAll flaky later).executions =
        twoExecutions := by
  have hfirst := guarded flaky 0 [plain .run, plain .run]
  have hlast := guarded flaky 0 [plain .run, plain .run, plain .retry] (plain .retry) _ rfl
  have hsucceeded : ∃ e ∈ twoExecutions, e.succeeded = true :=
    ⟨_, List.mem_cons_of_mem _ List.mem_cons_self, rfl⟩
  have hrefused : ¬ Manner.retry.MayExecute twoExecutions := by
    simp [Manner.MayExecute, twoExecutions, Execution.succeeded, Except.isOk, Except.toBool]
  refine ⟨rfl, ?_, ?_, hlast.2.1 hrefused, hlast.2.2.2.1 hsucceeded⟩
  · exact (hfirst (plain .run) _ rfl).2.2.2.2 (List.cons_ne_nil _ _) rfl
  · exact (hfirst (plain .retry) _ rfl).1 (.inr ⟨rfl, _, rfl, rfl⟩)

end Handle

end Sieve
