import Sieve.Filter.Tree
import Sieve.Identifier
import Sieve.Keyed

/-!
# Pipelines

A pipeline is a row of middlewares around a terminal executor.  Each middleware gets the tree and the
context and may pass them on, changed or not, to what stands below it: the next middleware or, after
the last, the terminal.  A middleware that does not pass them on answers itself.

* `Executor σ`: anything that executes a tree in a context, and may change a state `σ`;
* `Next`: what a middleware is given to reach what is below.  Within one call of a middleware it
  may be `run` once; `retry` is the same but may also follow a failure.  Any other use is refused
  with `doubleDispatch`, and nothing below is executed;
* `Pipeline.compose`: a pipeline from a list of stages, of which the last and no other has to be a
  terminal;
* `Pipeline.executeWith`: a pipeline is itself an executor, so pipelines nest.  It dispatches to one
  middleware after another, which comes to each of them around what is below it
  (`Pipeline.executeWith_eq_foldr`);
* `Pipeline.execute`: the same in a context of its own.
-/

namespace Sieve

/-- Why an execution fails. -/
inductive PipelineError
  | doubleDispatch
  | missingStage
  | unexpectedTerminal (index : Nat)
  | execution (message : String)
  deriving DecidableEq, Repr

namespace PipelineError

/-- A short name for the cause of an error. -/
def code : PipelineError → String
  | doubleDispatch => "DOUBLE_DISPATCH"
  | missingStage => "MISSING_STAGE"
  | unexpectedTerminal _ => "UNEXPECTED_TERMINAL"
  | execution _ => "EXECUTION_FAILED"

/-- The wording of an error. -/
def message : PipelineError → String
  | doubleDispatch => "next() 在同一次调度中被重复调用"
  | missingStage => "管道缺少终端执行器"
  | unexpectedTerminal i => "终端执行器必须位于管道末尾，实际位置: " ++ toString i
  | execution m => m

/-- Only a failure of an execution may pass; the other errors are mistakes in the use of pipelines. -/
def isRetryable : PipelineError → Bool
  | execution _ => true
  | _ => false

end PipelineError

/-- What an execution yields: the rows that it selects, or an error. -/
abbrev Outcome := Except PipelineError (List Json)

/-- What a caller tells besides the tree: attributes by name. -/
structure Attributes where
  attributes : List (String × Json) := []

/-- What is known of an execution besides the tree: what the caller tells, and the id of the request.  The
default stands for the random id that a context gets if it is given none. -/
structure Context extends Attributes where
  requestId : String := uuidV4 0

namespace Context

/-- The value of an attribute. -/
def attribute? (ctx : Context) (name : String) : Option Json := Keyed.lookup name ctx.attributes

/-- Sets an attribute. -/
def withAttribute (ctx : Context) (name : String) (value : Json) : Context :=
  { ctx with attributes := Keyed.insert name value ctx.attributes }

/-- Sets several attributes, one after another. -/
def withAttributes (ctx : Context) (attributes : List (String × Json)) : Context :=
  attributes.foldl (fun ctx a => ctx.withAttribute a.1 a.2) ctx

end Context

/-- Executes a tree in a context. -/
abbrev Executor (σ : Type) := Tree → Context → StateM σ Outcome

/-! ### Dispatch -/

/-- What a middleware has done with what is below it: nothing yet, or it is executing it, or it has
executed it, the last time with failure or with success. -/
inductive Dispatch
  | idle
  | running
  | failed
  | succeeded
  deriving DecidableEq, Repr

/-- What an outcome makes of the dispatch. -/
def Dispatch.after : Outcome → Dispatch
  | .ok _ => succeeded
  | .error _ => failed

/-- The two ways to reach what is below. -/
inductive Manner
  | run
  | retry
  deriving DecidableEq, Repr

/-- Whether what is below may be executed: once, or in the other manner also after a failure. -/
def Manner.mayFollow : Manner → Dispatch → Bool
  | run, d => d = .idle
  | retry, d => d = .idle ∨ d = .failed

/-- A computation of a middleware, which keeps account of its dispatch. -/
abbrev Handling (σ : Type) := StateT Dispatch (StateM σ)

variable {σ : Type}

/-- What is below a middleware. -/
structure Next (σ : Type) where
  below : Executor σ

/-- Takes hold of the dispatch if it may be, which is running from then on. -/
def Manner.acquire (m : Manner) : Handling σ (Except PipelineError Unit) := fun d s =>
  if m.mayFollow d then ((.ok (), .running), s) else ((.error .doubleDispatch, d), s)

namespace Next

/-- Executes what is below, and keeps how that has ended. -/
def dispatch (next : Next σ) (t : Tree) (ctx : Context) : Handling σ Outcome := do
  let r ← (next.below t ctx : StateM σ Outcome)
  set (Dispatch.after r)
  return r

/-- Executes what is below, if that may be. -/
def call (next : Next σ) (manner : Manner) (t : Tree) (ctx : Context) : Handling σ Outcome := do
  match ← manner.acquire with
  | .ok () => next.dispatch t ctx
  | .error e => return .error e

/-- Executes what is below for the first time. -/
def run (next : Next σ) : Tree → Context → Handling σ Outcome := next.call .run

/-- Executes what is below for the first time or after a failure. -/
def retry (next : Next σ) : Tree → Context → Handling σ Outcome := next.call .retry

theorem call_of_mayFollow (next : Next σ) {m : Manner} {d : Dispatch} (h : m.mayFollow d = true)
    (t : Tree) (ctx : Context) (s : σ) : next.call m t ctx d s =
      (((next.below t ctx s).1, .after (next.below t ctx s).1), (next.below t ctx s).2) := by
  simp only [call, bind, StateT.bind]
  rw [Manner.acquire, if_pos h]
  rfl

theorem call_of_not_mayFollow (next : Next σ) {m : Manner} {d : Dispatch} (h : m.mayFollow d = false)
    (t : Tree) (ctx : Context) (s : σ) :
    next.call m t ctx d s = ((.error .doubleDispatch, d), s) := by
  simp only [call, bind, StateT.bind]
  rw [Manner.acquire, h, if_neg Bool.false_ne_true]
  rfl

end Next

/-- A layer of a pipeline. -/
structure Middleware (σ : Type) where
  name : String
  handle : Tree → Context → Next σ → Handling σ Outcome

/-- A middleware around an executor. -/
def Middleware.around (m : Middleware σ) (below : Executor σ) : Executor σ := fun t ctx s =>
  let ((r, _), s) := m.handle t ctx ⟨below⟩ .idle s
  (r, s)

/-! ### Composition -/

/-- A part of a pipeline. -/
inductive Stage (σ : Type)
  | middleware (m : Middleware σ)
  | terminal (e : Executor σ)

/-- Middlewares around a terminal, the first outermost. -/
structure Pipeline (σ : Type) where
  middlewares : List (Middleware σ)
  terminal : Executor σ

namespace Pipeline

/-- Dispatches to the first of some middlewares, which gets what dispatches to the others, and at the
end to the terminal. -/
def dispatch : List (Middleware σ) → Executor σ → Executor σ
  | [], terminal => terminal
  | head :: rest, terminal => head.around (dispatch rest terminal)

/-- Executes a tree in a context.  Without middlewares that is for the terminal alone. -/
def executeWith (p : Pipeline σ) : Executor σ :=
  if p.middlewares.isEmpty then p.terminal else dispatch p.middlewares p.terminal

/-- Executes a tree in a context of its own, with what the caller tells. -/
def execute (p : Pipeline σ) (t : Tree) (told : Attributes) : StateM σ Outcome :=
  p.executeWith t { toAttributes := told }

/-- The names of the middlewares, the outermost first. -/
def stageNames (p : Pipeline σ) : List String := p.middlewares.map (·.name)

/-- Takes stages for middlewares, the first of which stands at an index. -/
def middlewaresFrom (index : Nat) : List (Stage σ) → Except PipelineError (List (Middleware σ))
  | [] => .ok []
  | .middleware m :: rest => (middlewaresFrom (index + 1) rest).map (m :: ·)
  | .terminal _ :: _ => .error (.unexpectedTerminal index)

/-- The pipeline of a list of stages. -/
def compose (stages : List (Stage σ)) : Except PipelineError (Pipeline σ) :=
  match stages.getLast? with
  | some (.terminal e) => (middlewaresFrom 0 stages.dropLast).map (⟨·, e⟩)
  | _ => .error .missingStage

/-- A dispatch is the first middleware around the second and so on, around the terminal. -/
theorem dispatch_eq_foldr (ms : List (Middleware σ)) (e : Executor σ) :
    dispatch ms e = ms.foldr Middleware.around e := by
  induction ms with
  | nil => rfl
  | cons m ms ih => rw [dispatch, ih, List.foldr_cons]

/-- The way past the dispatch that a pipeline without middlewares takes makes no difference. -/
theorem executeWith_eq_foldr (p : Pipeline σ) :
    p.executeWith = p.middlewares.foldr Middleware.around p.terminal := by
  rw [executeWith, dispatch_eq_foldr]
  cases p.middlewares <;> rfl

@[simp] theorem executeWith_nil (e : Executor σ) : (Pipeline.mk [] e).executeWith = e := rfl

@[simp] theorem executeWith_cons (m : Middleware σ) (ms : List (Middleware σ)) (e : Executor σ) :
    (Pipeline.mk (m :: ms) e).executeWith = m.around (Pipeline.mk ms e).executeWith := by
  rw [executeWith_eq_foldr, executeWith_eq_foldr, List.foldr_cons]

end Pipeline

end Sieve
