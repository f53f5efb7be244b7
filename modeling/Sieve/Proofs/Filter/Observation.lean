import Sieve.Pipeline.Host
import Sieve.Proofs.Filter.Denotation
import Sieve.Proofs.Metrics.Tally

/-!
# What is seen of an evaluation

Besides its outcome an evaluation shows in the handlers that it calls and in the counters that it
raises.

* `Event.isCall`, `Anomaly.counter`: which events are calls, and which counter stands for an anomaly;
* `Evaluator.node_denotation`: outcome, calls and counters of an evaluation, told by the denotation.
-/

namespace Sieve

/-- Whether an event is the call of a handler. -/
def Event.isCall : Event → Bool
  | .operated _ _ _ => true
  | .extracted _ => true
  | .anomaly _ => false

/-- The counter of an anomaly. -/
def Anomaly.counter (a : Anomaly) : String :=
  Metric.counter "filter_evaluation_anomalies_total" [("kind", a.name)]

theorem Anomaly.counter_injective : Function.Injective counter := by
  intro a b h
  cases a <;> cases b <;> first | rfl | exact absurd h (by decide)

namespace Evaluator

variable {ι : Type} (e : Evaluator) (item : Json)

theorem isCall_of_mem_calls {n : Node ι} {ev : Event} (h : ev ∈ e.calls item n) :
    ev.isCall = true := by
  cases n with
  | group i c cs => cases h
  | rule r =>
    rcases List.mem_append.1 h with h | h
    · obtain ⟨x, -, rfl⟩ := List.mem_map.1 h
      rfl
    · revert h
      cases r.value with
      | null => exact fun h => absurd h List.not_mem_nil
      | _ =>
        intro h
        obtain ⟨x, -, rfl⟩ := List.mem_map.1 h
        rfl

/-- The calls among what happens at a site. -/
theorem filter_isCall_happening (n : Node ι) :
    (e.happening item n).filter Event.isCall = e.calls item n := by
  have hcalls : (e.calls item n).filter Event.isCall = e.calls item n :=
    List.filter_eq_self.2 fun ev hev => e.isCall_of_mem_calls item hev
  rw [happening, List.filter_append, hcalls]
  cases e.raised? item n with
  | none => exact List.append_nil _
  | some a => exact List.append_nil _

/-- What happens at a site raises the counter of its anomaly by one, and no other. -/
theorem level_happening (n : Node ι) (c : String) :
    Metric.level ((e.happening item n).filterMap Host.metricOf?) c =
      ((e.raised? item n).toList.map Anomaly.counter).count c := by
  have hcalls : (e.calls item n).filterMap Host.metricOf? = [] := by
    refine List.filterMap_eq_nil_iff.2 fun ev hev => ?_
    have hcall := e.isCall_of_mem_calls item hev
    cases ev with
    | anomaly a => cases hcall
    | operated op field value => rfl
    | extracted field => rfl
  rw [happening, List.filterMap_append, hcalls, List.nil_append, Metric.level_eq_count]
  cases e.raised? item n with
  | none => rfl
  | some a => rfl

/-- What happens at a row of sites raises each counter once for each site with its anomaly. -/
theorem level_flatMap_happening (ss : List (Site ι)) (c : String) :
    Metric.level ((ss.flatMap fun s => e.happening item s.node).filterMap Host.metricOf?) c =
      (ss.flatMap fun s => (e.raised? item s.node).toList.map Anomaly.counter).count c := by
  induction ss with
  | nil => rfl
  | cons s ss ih =>
    rw [List.flatMap_cons, List.filterMap_append, Metric.level_append, level_happening, ih,
      List.flatMap_cons, List.count_append]

/-- The sites whose anomaly has a counter are those that raise the anomaly. -/
theorem count_counter (ss : List (Site ι)) (a : Anomaly) :
    (ss.flatMap fun s => (e.raised? item s.node).toList.map Anomaly.counter).count a.counter =
      ss.countP fun s => e.raised? item s.node = some a := by
  induction ss with
  | nil => rfl
  | cons s ss ih =>
    rw [List.flatMap_cons, List.count_append, ih, List.countP_cons]
    cases e.raised? item s.node with
    | none => simp
    | some b =>
      by_cases hb : b = a
      · simp [hb, Nat.add_comm]
      · have hne : b.counter ≠ a.counter := fun h => hb (Anomaly.counter_injective h)
        simp [hb, hne]

/-- The counters after an evaluation are those before it, raised for the anomalies of the sites that it
gets to. -/
theorem level_witness (n : Node ι) (h : Host) (c : String) :
    Metric.level (Host.witness (e.node item n).events h).2.metrics c = Metric.level h.metrics c +
      ((e.reachedSites item n).flatMap fun s =>
        (e.raised? item s.node).toList.map Anomaly.counter).count c := by
  show Metric.level (h.metrics ++ (e.node item n).events.filterMap Host.metricOf?) c = _
  rw [Metric.level_append, events_node, level_flatMap_happening]

/-- The counter of an anomaly is raised once for each site that raises the anomaly. -/
theorem level_counter_witness (n : Node ι) (h : Host) (a : Anomaly) :
    Metric.level (Host.witness (e.node item n).events h).2.metrics a.counter =
      Metric.level h.metrics a.counter +
        (e.reachedSites item n).countP fun s => e.raised? item s.node = some a := by
  rw [level_witness, count_counter]

/-- An anomaly among what happens at a site is the one that the site raises. -/
theorem raised?_of_mem_happening {n : Node ι} {a : Anomaly}
    (h : Event.anomaly a ∈ e.happening item n) : e.raised? item n = some a := by
  rcases List.mem_append.1 h with h | h
  · exact absurd (e.isCall_of_mem_calls item h) Bool.false_ne_true
  · simpa using h

/-- An evaluation refines its denotation.

* The outcome is the truth of the node, with every child of every group evaluated.
* The calls are those of the sites in the order of the tree, without the sites below a child that
  its group does not get to.
* Each counter of an anomaly is raised once for each of the remaining sites that raises the anomaly,
  and no other counter is raised. -/
theorem node_denotation (n : Node ι) :
    (e.node item n).holds = e.truth item n ∧
    (e.node item n).events.filter Event.isCall =
      (n.sites.filter fun s => e.reached item n s.path).flatMap (fun s => e.calls item s.node) ∧
    ∀ h : Host,
      (∀ a : Anomaly, Metric.level (Host.witness (e.node item n).events h).2.metrics a.counter =
        Metric.level h.metrics a.counter +
          (n.sites.filter fun s => e.reached item n s.path).countP
            fun s => e.raised? item s.node = some a) ∧
      ∀ c : String, (∃ a : Anomaly, c = a.counter) ∨
        Metric.level (Host.witness (e.node item n).events h).2.metrics c =
          Metric.level h.metrics c := by
  refine ⟨e.holds_node item n, ?_, fun h => ⟨fun a => e.level_counter_witness item n h a, fun c => ?_⟩⟩
  · rw [events_node, List.filter_flatMap]
    simp only [filter_isCall_happening]
    rfl
  · -- every counter that is raised at a site is that of an anomaly
    by_cases hc : ∃ a : Anomaly, c = a.counter
    · exact .inl hc
    · refine .inr ?_
      rw [level_witness, List.count_eq_zero.2, Nat.add_zero]
      intro hmem
      obtain ⟨s, -, hs⟩ := List.mem_flatMap.1 hmem
      obtain ⟨a, -, rfl⟩ := List.mem_map.1 hs
      exact hc ⟨a, rfl⟩

end Evaluator

end Sieve
