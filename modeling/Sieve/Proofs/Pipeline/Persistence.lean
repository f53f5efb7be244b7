import Sieve.Pipeline.Script
import Sieve.Proofs.Pipeline.Transparency

/-!
# How often a pipeline tries

A layer that tries again does so with everything below it, so the tries of several such layers multiply.

* `Outcome.settles`: outcomes after which nobody tries again, which are the successes and the errors that
  will not pass;
* `lastCall`: the number of the call whose outcome counts, which is the first that settles the matter
  or the last that a budget allows; `lastCall_add` says that a budget may be spent in two parts;
* `Executor.Persists`: an executor that calls a terminal as often as a budget tells, and answers with the
  outcome of the last call.  Logging keeps the budget, and retrying multiplies it;
* `Pipeline.execute_persists`: the calls and the outcome of an execution through any such layers.
-/

namespace Sieve

/-- Whether nobody tries again after an outcome. -/
def Outcome.settles : Outcome → Bool
  | .ok _ => true
  | .error e => !e.isRetryable

/-! ### Budgets -/

/-- The number of the last call, where calls are made until the outcome of one settles the matter or a
budget is spent; `o i` is the outcome of call `i`, and so many calls have been made before. -/
def lastCall (o : Nat → Outcome) (made : Nat) : Nat → Nat
  | 0 => made
  | budget + 1 =>
    if Outcome.settles (o (made + 1)) then made + 1 else lastCall o (made + 1) budget

section

variable (o : Nat → Outcome) (made : Nat)

/-- Calls are made within the budget. -/
theorem lastCall_bounds (budget : Nat) :
    made ≤ lastCall o made budget ∧ lastCall o made budget ≤ made + budget := by
  induction budget generalizing made with
  | zero => exact ⟨Nat.le_refl made, Nat.le_refl made⟩
  | succ budget ih =>
    obtain ⟨hmore, hless⟩ := ih (made + 1)
    unfold lastCall
    split <;> omega

theorem lt_lastCall {budget : Nat} (h : 0 < budget) : made < lastCall o made budget := by
  cases budget with
  | zero => exact absurd h (Nat.lt_irrefl 0)
  | succ budget =>
    have hrest := (lastCall_bounds o (made + 1) budget).1
    unfold lastCall
    split <;> omega

/-- Before the last call nothing is settled. -/
theorem not_settles_of_lt_lastCall {budget i : Nat} (hmade : made < i) (hi : i < lastCall o made budget) :
    Outcome.settles (o i) = false := by
  induction budget generalizing made with
  | zero => exact absurd (Nat.lt_trans hmade hi) (Nat.lt_irrefl made)
  | succ budget ih =>
    rw [lastCall] at hi
    split at hi
    next => omega
    next hfirst =>
      obtain rfl | hmore : i = made + 1 ∨ made + 1 < i := by omega
      · simpa using hfirst
      · exact ih (made + 1) hmore hi

/-- Unless the last call settles the matter, the budget is spent. -/
theorem lastCall_of_not_settles {budget : Nat}
    (h : Outcome.settles (o (lastCall o made budget)) = false) :
    lastCall o made budget = made + budget := by
  induction budget generalizing made with
  | zero => rfl
  | succ budget ih =>
    rw [lastCall] at h ⊢
    split at h
    next hfirst => simp [hfirst] at h
    next hfirst =>
      rw [if_neg hfirst, ih (made + 1) h]
      omega

/-- A budget is spent in two parts, the second only if the first has not settled the matter. -/
theorem lastCall_add {part : Nat} (hpart : 0 < part) (rest : Nat) :
    lastCall o made (part + rest) =
      if Outcome.settles (o (lastCall o made part)) then lastCall o made part
      else lastCall o (lastCall o made part) rest := by
  induction part generalizing made with
  | zero => exact absurd hpart (Nat.lt_irrefl 0)
  | succ part ih =>
    rw [Nat.add_right_comm, lastCall, lastCall]
    by_cases hfirst : Outcome.settles (o (made + 1)) = true
    · simp only [if_pos hfirst]
    · simp only [if_neg hfirst]
      rcases Nat.eq_zero_or_pos part with rfl | hmore
      · rw [Nat.zero_add, lastCall, if_neg hfirst]
      · exact ih (made + 1) hmore

end

/-! ### Layers -/

/-- An executor that yields one outcome after another, and counts its calls under a number. -/
structure Executor.Yields (o : Nat → Outcome) (terminal : Nat) (x : Executor Host) : Prop where
  calls : ∀ t ctx h, (x t ctx h).2.calls terminal = h.calls terminal + 1
  outcome : ∀ t ctx h, (x t ctx h).1 = o (h.calls terminal + 1)

/-- An executor that calls a terminal as often as a budget tells, and answers with the outcome of the last
call. -/
structure Executor.Persists (o : Nat → Outcome) (terminal budget : Nat) (x : Executor Host) : Prop where
  calls : ∀ t ctx h, (x t ctx h).2.calls terminal = lastCall o (h.calls terminal) budget
  outcome : ∀ t ctx h, (x t ctx h).1 = o (lastCall o (h.calls terminal) budget)

/-- A pause of a middleware. -/
def Handling.pause (ms : Nat) : Handling Host Unit := Host.pause ms

section

variable (p : RetryPolicy) {operation : Handling Host Outcome} {d d' : Dispatch} {h h' : Host} {r : Outcome}
  (left : Nat)

/-- After an outcome that settles the matter nothing is tried again. -/
theorem RetryPolicy.attemptLeft_of_settles (ho : operation d h = ((r, d'), h'))
    (hr : Outcome.settles r = true) :
    p.attemptLeft PipelineError.isRetryable Handling.pause operation (left + 1) d h =
      ((r, d'), h') := by
  rw [attemptLeft]
  simp only [bind, StateT.bind, ho]
  cases r with
  | ok rows => rfl
  | error e =>
    have he : e.isRetryable = false := by simpa [Outcome.settles] using hr
    simp only [he, Bool.false_eq_true, if_false]
    rfl

/-- After any other outcome there is a pause, and the tries that are left follow. -/
theorem RetryPolicy.attemptLeft_of_not_settles (ho : operation d h = ((r, d'), h'))
    (hr : Outcome.settles r = false) :
    p.attemptLeft PipelineError.isRetryable Handling.pause operation (left + 1) d h =
      p.attemptLeft PipelineError.isRetryable Handling.pause operation left d'
        { h' with waited := h'.waited + p.delay (p.limit - (left + 1)) } := by
  rw [attemptLeft]
  simp only [bind, StateT.bind, ho]
  cases r with
  | ok rows => cases hr
  | error e =>
    have he : e.isRetryable = true := by simpa [Outcome.settles] using hr
    simp only [he, if_true]
    rfl

end

/-- A failure leaves the handle open to a retry. -/
theorem Dispatch.mayFollow_after {r : Outcome} (h : Outcome.settles r = false) :
    Manner.retry.mayFollow (.after r) = true := by
  cases r with
  | ok rows => cases h
  | error e => rfl

namespace Executor

variable {o : Nat → Outcome} {terminal budget : Nat} {x : Executor Host}

/-- A terminal is called once. -/
theorem Yields.persists (hx : x.Yields o terminal) : x.Persists o terminal 1 := by
  have hlast : ∀ made, lastCall o made 1 = made + 1 := by
    intro made
    rw [lastCall]
    split <;> rfl
  exact ⟨fun t ctx h => by rw [hx.calls, hlast], fun t ctx h => by rw [hx.outcome, hlast]⟩

theorem persists_logging (hx : x.Persists o terminal budget) (pipeline : String) :
    ((Middleware.logging pipeline).around x).Persists o terminal budget :=
  ⟨hx.calls, hx.outcome⟩

/-- The tries that are left, through a handle that a retry may still use, spend the budget once each. -/
theorem attemptLeft_persists (hx : x.Persists o terminal budget) (hpos : 0 < budget) (p : RetryPolicy)
    (t : Tree) (ctx : Context) (left : Nat) {d : Dispatch} (hd : Manner.retry.mayFollow d = true)
    (h : Host) :
    ((p.attemptLeft PipelineError.isRetryable Handling.pause ((Next.mk x).retry t ctx) left d h).2.calls
        terminal = lastCall o (h.calls terminal) ((left + 1) * budget)) ∧
      (p.attemptLeft PipelineError.isRetryable Handling.pause ((Next.mk x).retry t ctx) left d h).1.1 =
        o (lastCall o (h.calls terminal) ((left + 1) * budget)) := by
  have hcall : ∀ {d : Dispatch} (h : Host), Manner.retry.mayFollow d = true →
      (Next.mk x).retry t ctx d h = (((x t ctx h).1, .after (x t ctx h).1), (x t ctx h).2) :=
    fun h hd => (Next.mk x).call_of_mayFollow hd t ctx h
  induction left generalizing d h with
  | zero =>
    rw [RetryPolicy.attemptLeft, hcall h hd, Nat.zero_add, Nat.one_mul]
    exact ⟨hx.calls t ctx h, hx.outcome t ctx h⟩
  | succ left ih =>
    have hbudget : (left + 1 + 1) * budget = budget + (left + 1) * budget := by
      rw [Nat.succ_mul, Nat.add_comm]
    rw [hbudget, lastCall_add o _ hpos, ← hx.outcome t ctx h]
    cases hs : Outcome.settles (x t ctx h).1 with
    | true =>
      rw [RetryPolicy.attemptLeft_of_settles p left (hcall h hd) hs]
      exact ⟨hx.calls t ctx h, hx.outcome t ctx h⟩
    | false =>
      rw [RetryPolicy.attemptLeft_of_not_settles p left (hcall h hd) hs, ← hx.calls t ctx h]
      exact ih (Dispatch.mayFollow_after hs) _

theorem persists_retrying (hx : x.Persists o terminal budget) (hpos : 0 < budget) (p : RetryPolicy) :
    ((Middleware.retrying p).around x).Persists o terminal ((p.limit + 1) * budget) := by
  have hidle : Manner.retry.mayFollow .idle = true := rfl
  exact ⟨fun t ctx h => (attemptLeft_persists hx hpos p t ctx p.limit hidle h).1,
    fun t ctx h => (attemptLeft_persists hx hpos p t ctx p.limit hidle h).2⟩

/-- A prepared terminal yields its outcomes one after another. -/
theorem yields_prepared (name : String) (terminal : Nat) (outcomes : List Outcome) :
    (prepared name terminal outcomes).Yields (fun i => outcomeAt outcomes (i - 1)) terminal := by
  have hcalls : ∀ h : Host, update h.calls terminal (h.calls terminal + 1) terminal =
      h.calls terminal + 1 := fun h => if_pos rfl
  exact ⟨fun t ctx h => hcalls h, fun t ctx h => rfl⟩

end Executor

/-! ### Pipelines -/

namespace StockLayer

/-- How often a layer may call what is below it. -/
def attempts : StockLayer → Nat
  | retrying p => p.limit + 1
  | logging _ => 1
  | caching _ => 1

/-- How often layers may call the terminal: each of them as often as it may for every call from above. -/
def budget : List StockLayer → Nat
  | [] => 1
  | l :: ls => l.attempts * budget ls

theorem budget_pos (ls : List StockLayer) : 0 < budget ls := by
  induction ls with
  | nil => exact Nat.one_pos
  | cons l ls ih =>
    have hl : 0 < l.attempts := by
      cases l with
      | retrying p => exact Nat.succ_pos p.limit
      | logging | caching => exact Nat.one_pos
    exact Nat.mul_pos hl ih

theorem persists_pipeline {o : Nat → Outcome} {terminal : Nat} {x : Executor Host}
    (hx : x.Yields o terminal) (ls : List StockLayer) (hls : ∀ l ∈ ls, l.cache? = none) :
    (Pipeline.mk (ls.map middleware) x).executeWith.Persists o terminal (budget ls) := by
  induction ls with
  | nil => exact hx.persists
  | cons l ls ih =>
    have hrest := ih fun l' hl' => hls l' (List.mem_cons_of_mem _ hl')
    have hl := hls l List.mem_cons_self
    rw [List.map_cons, Pipeline.executeWith_cons, budget]
    cases l with
    | logging pipeline =>
      rw [attempts, Nat.one_mul]
      exact Executor.persists_logging hrest pipeline
    | retrying p => exact Executor.persists_retrying hrest (budget_pos ls) p
    | caching i => cases hl

end StockLayer

/-- **An execution through layers that log and retry calls the terminal until an outcome settles the matter
or the product of the tries of all layers is spent, and answers with the outcome of the last call, so that
no refusal of a handle comes from the layers themselves.** -/
theorem Pipeline.execute_persists {o : Nat → Outcome} {terminal : Nat} {x : Executor Host}
    (hx : x.Yields o terminal) {ls : List StockLayer} (hls : ∀ l ∈ ls, l.cache? = none)
    (t : Tree) (ctx : Context) (h : Host) :
    ∃ m, 1 ≤ m ∧ m ≤ StockLayer.budget ls ∧
      (∀ i, 1 ≤ i → i < m → Outcome.settles (o (h.calls terminal + i)) = false) ∧
      (Outcome.settles (o (h.calls terminal + m)) = true ∨ m = StockLayer.budget ls) ∧
      ((Pipeline.mk (ls.map StockLayer.middleware) x).executeWith t ctx h).2.calls terminal =
        h.calls terminal + m ∧
      ((Pipeline.mk (ls.map StockLayer.middleware) x).executeWith t ctx h).1 =
        o (h.calls terminal + m) := by
  have hpersists := StockLayer.persists_pipeline hx ls hls
  have hlt := lt_lastCall o (h.calls terminal) (StockLayer.budget_pos ls)
  have hle := (lastCall_bounds o (h.calls terminal) (StockLayer.budget ls)).2
  obtain ⟨m, hm⟩ := Nat.exists_eq_add_of_le (Nat.le_of_lt hlt)
  refine ⟨m, by omega, by omega, fun i hi him => ?_, ?_, ?_, ?_⟩
  · have hlast : h.calls terminal + i < lastCall o (h.calls terminal) (StockLayer.budget ls) := by omega
    exact not_settles_of_lt_lastCall o _ (Nat.lt_add_of_pos_right hi) hlast
  · cases hs : Outcome.settles (o (h.calls terminal + m)) with
    | true => exact .inl rfl
    | false =>
      rw [← hm] at hs
      have hspent := lastCall_of_not_settles o _ hs
      exact .inr (by omega)
  · rw [hpersists.calls, hm]
  · rw [hpersists.outcome, hm]

/-- Two layers that try again, among two that log. -/
def twoRetries : List StockLayer :=
  [.logging "p", .retrying (.exponential 1 100), .logging "q", .retrying (.exponential 2 100)]

/-- Four failures that may pass, and then an error that will not. -/
def failures : List Outcome :=
  List.replicate 4 (.error (.execution "down")) ++ [.error .missingStage, .ok []]

/-- Of the six tries that two layers allow, the fifth is the last. -/
theorem Pipeline.execute_persists_twoRetries :
    StockLayer.budget twoRetries = 6 ∧
      ((Pipeline.mk (twoRetries.map StockLayer.middleware) (.prepared "t" 0 failures)).executeWith
        ⟨"root", .and, []⟩ {} {}).2.calls 0 = 5 ∧
      ((Pipeline.mk (twoRetries.map StockLayer.middleware) (.prepared "t" 0 failures)).executeWith
        ⟨"root", .and, []⟩ {} {}).1 = .error .missingStage := by
  have hlayers : ∀ l ∈ twoRetries, l.cache? = none := by simp [twoRetries, StockLayer.cache?]
  have hbudget : StockLayer.budget twoRetries = 6 := rfl
  obtain ⟨m, hpos, hle, hbefore, hlast, hcalls, hr⟩ :=
    Pipeline.execute_persists (Executor.yields_prepared "t" 0 failures) hlayers ⟨"root", .and, []⟩ {} {}
  have hfifth : ¬ 5 < m := fun hlt => absurd (hbefore 5 (by decide) hlt) (by decide)
  have hsettles := hlast.resolve_right (by omega)
  have hm : m = 5 := by
    obtain rfl | rfl | rfl | rfl | rfl : m = 1 ∨ m = 2 ∨ m = 3 ∨ m = 4 ∨ m = 5 := by omega
    · exact absurd hsettles (by decide)
    · exact absurd hsettles (by decide)
    · exact absurd hsettles (by decide)
    · exact absurd hsettles (by decide)
    · rfl
  subst hm
  exact ⟨hbudget, hcalls, hr⟩

end Sieve
