import Sieve.Metrics

/-!
# How far counters are raised

A counter stands as high as the number of times that the records raise it: `Metric.level_eq_count`.

The counters of executions (`Metric.executions`) and of looks into caches (`Metric.lookups`) are raised by
the records of executions and of looks alone: the name of a counter ends before its labels, so counters of
different names differ whatever the labels are.
-/

namespace Sieve.Metric

/-- How far a counter is raised by a list of records. -/
def level (ms : List Metric) (c : String) : Nat := (Keyed.lookup c (tally ms)).getD 0

/-- Raising counters one after another adds up. -/
theorem lookup_foldl_raise (cs : List String) (c : String) (t : List (String × Nat)) :
    (Keyed.lookup c
      (cs.foldl (fun t c => Keyed.insert c ((Keyed.lookup c t).getD 0 + 1) t) t)).getD 0 =
      (Keyed.lookup c t).getD 0 + cs.count c := by
  induction cs generalizing t with
  | nil => rfl
  | cons d cs ih =>
    rw [List.foldl_cons, ih, Keyed.lookup_insert, List.count_cons]
    by_cases hd : d = c
    · subst hd
      simp
      omega
    · simp [hd]

theorem level_eq_count (ms : List Metric) (c : String) :
    level ms c = (ms.flatMap counters).count c := by
  have h := lookup_foldl_raise (ms.flatMap counters) c []
  rw [level, tally, h]
  simp [Keyed.lookup]

@[simp] theorem level_append (ms ns : List Metric) (c : String) :
    level (ms ++ ns) c = level ms c + level ns c := by
  simp only [level_eq_count, List.flatMap_append, List.count_append]

/-! ### Counters of pipelines and caches -/

/-- The counter of the executions of a pipeline with a kind of outcome. -/
def executions (pipeline outcome : String) : String :=
  counter "filter_pipeline_executions_total" [("pipeline", pipeline), ("outcome", outcome)]

/-- The counter of the looks into caches that found something, or nothing. -/
def lookups (hit : Bool) : String :=
  counter "filter_cache_lookups_total" [("hit", if hit then "true" else "false")]

/-- The name of a counter is what stands before its labels. -/
theorem takeWhile_counter {name : String} (h : '\x7b' ∉ name.toList) (labels : List (String × String)) :
    (counter name labels).toList.takeWhile (· ≠ '\x7b') = name.toList := by
  have hname : ∀ c ∈ name.toList, decide (c ≠ '\x7b') = true := by
    intro c hc
    exact decide_eq_true fun he => h (he ▸ hc)
  simp only [counter, String.toList_append, List.append_assoc]
  rw [List.takeWhile_append_of_pos hname]
  simp

theorem counter_ne {name other : String} (hne : name ≠ other) (hname : '\x7b' ∉ name.toList)
    (hother : '\x7b' ∉ other.toList) (labels labels' : List (String × String)) :
    counter name labels ≠ counter other labels' := by
  intro h
  have hl := takeWhile_counter hname labels
  rw [h, takeWhile_counter hother] at hl
  exact hne (String.toList_inj.1 hl.symm)

theorem executions_injective (pipeline : String) : Function.Injective (executions pipeline) := by
  intro o o' h
  simpa [executions, counter, String.ext_iff] using h

theorem lookups_injective : Function.Injective lookups := by
  intro b b' h
  cases b <;> cases b' <;> first | rfl | exact absurd h (by decide)

theorem executions_ne_lookups (pipeline outcome : String) (hit : Bool) :
    executions pipeline outcome ≠ lookups hit :=
  counter_ne (by decide) (by decide) (by decide) _ _

theorem level_singleton (m : Metric) (c : String) : level [m] c = (counters m).count c := by
  rw [level_eq_count, List.flatMap_singleton]

/-- Anomalies raise no other counters than their own. -/
theorem level_anomalies {c : String}
    (h : ∀ kind, counter "filter_evaluation_anomalies_total" [("kind", kind)] ≠ c)
    (kinds : List String) : level (kinds.map .anomaly) c = 0 := by
  rw [level_eq_count, List.flatMap_map]
  refine List.count_eq_zero.2 fun hc => ?_
  obtain ⟨kind, -, hkind⟩ := List.mem_flatMap.1 hc
  exact h kind (List.mem_singleton.1 hkind).symm

variable (pipeline outcome : String) (hit : Bool)

@[simp] theorem level_execution_executions (outcome' : String) :
    level [.execution pipeline outcome] (executions pipeline outcome') =
      if outcome = outcome' then 1 else 0 := by
  have htime : counter "filter_pipeline_duration_seconds_count" [("pipeline", pipeline)] ≠
      executions pipeline outcome' := counter_ne (by decide) (by decide) (by decide) _ _
  have hname : counters (.execution pipeline outcome) = [executions pipeline outcome,
      counter "filter_pipeline_duration_seconds_count" [("pipeline", pipeline)]] := rfl
  rw [level_singleton, hname]
  simp [List.count_cons, htime, (executions_injective pipeline).eq_iff]

@[simp] theorem level_execution_lookups : level [.execution pipeline outcome] (lookups hit) = 0 := by
  have htime : counter "filter_pipeline_duration_seconds_count" [("pipeline", pipeline)] ≠ lookups hit :=
    counter_ne (by decide) (by decide) (by decide) _ _
  rw [level_singleton]
  refine List.count_eq_zero.2 fun hc => ?_
  rcases List.mem_cons.1 hc with hc | hc
  · exact executions_ne_lookups pipeline outcome hit hc.symm
  · exact htime (List.mem_singleton.1 hc).symm

@[simp] theorem level_lookup_lookups (hit' : Bool) :
    level [.lookup hit] (lookups hit') = if hit = hit' then 1 else 0 := by
  have hname : counters (.lookup hit) = [lookups hit] := rfl
  rw [level_singleton, hname]
  simp [List.count_cons, lookups_injective.eq_iff]

@[simp] theorem level_lookup_executions : level [.lookup hit] (executions pipeline outcome) = 0 := by
  rw [level_singleton]
  refine List.count_eq_zero.2 fun hc => ?_
  exact executions_ne_lookups pipeline outcome hit (List.mem_singleton.1 hc)

@[simp] theorem level_anomalies_executions (kinds : List String) :
    level (kinds.map .anomaly) (executions pipeline outcome) = 0 :=
  level_anomalies (fun _ => counter_ne (by decide) (by decide) (by decide) _ _) kinds

@[simp] theorem level_anomalies_lookups (kinds : List String) :
    level (kinds.map .anomaly) (lookups hit) = 0 :=
  level_anomalies (fun _ => counter_ne (by decide) (by decide) (by decide) _ _) kinds

end Sieve.Metric
