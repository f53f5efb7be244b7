import Sieve.Filter.Wire
import Sieve.Json.Printer
import Sieve.Pipeline.Host
import Sieve.Retry

/-!
# Ready-made stages

* `Middleware.logging`: records every execution with its outcome, and changes nothing;
* `Middleware.caching`: keeps the rows of successful executions by the text of the tree, and gives
  them again without execution.  The context is no part of the key;
* `Middleware.retrying`: tries again after a failure that may pass;
* `Executor.filtering`: the terminal that selects from a list of items.
-/

namespace Sieve

/-- The text of a tree in one line.  Every tree has one: the names in its JSON value are strings, and every
number has a text. -/
def cacheKey (t : Tree) : String := t.encode.compact

/-- The name of the kind of an outcome. -/
def Outcome.kind : Outcome → String
  | .ok _ => "success"
  | .error _ => "error"

namespace Middleware

/-- Records executions under the name of a pipeline. -/
def logging (pipeline : String) : Middleware Host where
  name := "logging"
  handle t ctx next := do
    let r ← next.run t ctx
    Host.record (.execution pipeline (Outcome.kind r))
    return r

/-- Keeps results in one of the caches.  Passing the cache by, for want of a key, never comes to pass: every
tree has a `cacheKey`. -/
def caching (cache : Nat) : Middleware Host where
  name := "cache"
  handle t ctx next := do
    match ← (Host.lookup cache (cacheKey t) : StateM Host _) with
    | some rows => return .ok rows
    | none =>
      match ← next.run t ctx with
      | .ok rows =>
        Host.keep cache (cacheKey t) rows
        return .ok rows
      | .error e => return .error e

/-- Tries again under a policy. -/
def retrying (p : RetryPolicy) : Middleware Host where
  name := "retry"
  handle t ctx next := p.attempt PipelineError.isRetryable (fun ms => Host.pause ms) (next.retry t ctx)

end Middleware

namespace Executor

/-- Selects the items that pass the tree. -/
def filtering (e : Evaluator) (items : List Json) : Executor Host := fun t _ => do
  Host.witness (e.filterEvents items t)
  return .ok (e.filter items t)

end Executor

end Sieve
