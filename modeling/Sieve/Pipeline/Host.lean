import Sieve.Cache
import Sieve.Filter.Evaluation
import Sieve.Metrics
import Sieve.Pipeline.Basic

/-!
# The host of a pipeline

The state that the stages of pipelines share.

* `caches`, by number, and a clock; time passes from one use of a cache to the next, so no two
  results are written at the same moment;
* `calls`: how often each prepared terminal has been called, by number;
* `metrics` and `waited`: what has been recorded, and the milliseconds spent in pauses;
* `journal`: what middlewares and handlers have noted, in order.
-/

namespace Sieve

/-- Something worth noting: a middleware is entered, has reached what is below it, or is left; a
prepared terminal is called; a handler is called. -/
inductive Note
  | entered (stage : String)
  | dispatched (stage : String) (manner : Manner) (outcome : Outcome)
  | left (stage : String) (outcome : Outcome)
  | called (terminal : String) (count : Nat)
  | handled (e : Event)

/-- What the stages of pipelines share. -/
structure Host where
  caches : Nat → Cache (List Json) := fun _ => {}
  calls : Nat → Nat := fun _ => 0
  now : Nat := 0
  waited : Nat := 0
  metrics : List Metric := []
  journal : List Note := []

/-- A function with one value changed. -/
def update {α : Type} (f : Nat → α) (i : Nat) (a : α) : Nat → α := fun j => if j = i then a else f j

namespace Host

/-- Records a metric. -/
def record (m : Metric) : StateM Host Unit := modify fun h => { h with metrics := h.metrics ++ [m] }

/-- Writes a note. -/
def note (n : Note) : StateM Host Unit := modify fun h => { h with journal := h.journal ++ [n] }

/-- Spends some milliseconds in a pause. -/
def pause (ms : Nat) : StateM Host Unit := modify fun h => { h with waited := h.waited + ms }

/-- Looks for a result in a cache, which is recorded. -/
def lookup (cache : Nat) (key : String) : StateM Host (Option (List Json)) := fun h =>
  let (found, c) := (h.caches cache).get h.now key
  (found, { h with
    caches := update h.caches cache c
    now := h.now + 1
    metrics := h.metrics ++ [.lookup found.isSome] })

/-- Keeps a result in a cache. -/
def keep (cache : Nat) (key : String) (rows : List Json) : StateM Host Unit := modify fun h =>
  { h with
    caches := update h.caches cache ((h.caches cache).insert h.now key rows)
    now := h.now + 1 }

/-- Counts a call of a prepared terminal, and says how many there were before. -/
def count (terminal : Nat) : StateM Host Nat := fun h =>
  (h.calls terminal, { h with calls := update h.calls terminal (h.calls terminal + 1) })

/-- The metric of an event of an evaluation. -/
def metricOf? : Event → Option Metric
  | .anomaly a => some (.anomaly a.name)
  | _ => none

/-- The note on an event of an evaluation. -/
def noteOf? : Event → Option Note
  | .anomaly _ => none
  | e => some (.handled e)

/-- Takes down the events of an evaluation: anomalies as metrics, calls of handlers as notes. -/
def witness (events : List Event) : StateM Host Unit := modify fun h =>
  { h with
    metrics := h.metrics ++ events.filterMap metricOf?
    journal := h.journal ++ events.filterMap noteOf? }

/-- A host with nothing recorded and nothing noted. -/
def cleared (h : Host) : Host := { h with waited := 0, metrics := [], journal := [] }

end Host

end Sieve
