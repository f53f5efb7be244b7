import Sieve.Keyed

/-!
# Metrics

What a program records about its work is a list of `Metric`s.  Each of them raises some counters by
one: `Metric.counters` says which, by name and labels, and `tally` counts them all.
-/

namespace Sieve

/-- One record: an execution of a pipeline with its outcome, a look into a cache, an anomaly of an
evaluation, or the start of a service. -/
inductive Metric
  | execution (pipeline outcome : String)
  | lookup (hit : Bool)
  | anomaly (kind : String)
  | start (service : String)
  deriving DecidableEq, Repr

namespace Metric

/-- A counter: a name and the labels that tell it from others of that name. -/
def counter (name : String) (labels : List (String × String)) : String :=
  name ++ "\x7b" ++ ",".intercalate (labels.map fun l => l.1 ++ "=" ++ l.2) ++ "\x7d"

/-- The counters that a record raises.  An execution also counts as a measurement of its time. -/
def counters : Metric → List String
  | execution p o =>
    [counter "filter_pipeline_executions_total" [("pipeline", p), ("outcome", o)],
     counter "filter_pipeline_duration_seconds_count" [("pipeline", p)]]
  | lookup hit => [counter "filter_cache_lookups_total" [("hit", if hit then "true" else "false")]]
  | anomaly k => [counter "filter_evaluation_anomalies_total" [("kind", k)]]
  | start s => [counter "service_starts_total" [("service", s)]]

/-- The counters that a list of records raises, and how far. -/
def tally (ms : List Metric) : List (String × Nat) :=
  (ms.flatMap counters).foldl (fun t c => Keyed.insert c ((Keyed.lookup c t).getD 0 + 1) t) []

end Metric

end Sieve
