import Sieve.Fields
import Sieve.Proofs.Filter.Observation

/-!
# Trees without issues

A configuration checks the rules of a tree one by one in the order of a walk, and evaluation goes through the
tree in an order of its own and stops early.  What evaluation gets to has been checked nevertheless.

* `Evaluator.Knows`: an operator is built in or registered; `Evaluator.raised?_of_knows` says that a rule
  with such an operator may fail, but not for want of a meaning;
* `FilterConfig.allowed_of_issues_eq_nil`: the operator of a rule of a tree without issues is one that
  the configuration allows for a field;
* `FilterConfig.known_of_issues_eq_nil`: no part of a tree without issues meets an unknown operator, if
  the configuration allows known ones only.
-/

namespace Sieve

variable {ι : Type}

/-! ### Known operators -/

theorem Operator.isSome_ofName?_iff {name : String} :
    (ofName? name).isSome = true ↔ ∃ o : Operator, o.name = name := by
  have hall : ∀ o : Operator, o ∈ all := by
    intro o
    cases o <;> decide
  simp [ofName?, List.find?_isSome, hall]

namespace Evaluator

/-- An operator has a meaning: it is built in or registered. -/
def Knows (e : Evaluator) (op : String) : Prop :=
  (∃ o : Operator, o.name = op) ∨ (e.operator? op).isSome = true

variable {e : Evaluator}

theorem failure?_of_knows {op : String} (h : e.Knows op) (field : Option Json) (value : Json) :
    e.failure? op field value ≠ some .unknownOperator := by
  unfold failure?
  cases hop : e.operator? op with
  | some handler =>
    dsimp only
    split <;> simp
  | none =>
    have hbuiltIn : (Operator.ofName? op).isSome = true := by
      rw [Operator.isSome_ofName?_iff]
      simpa [Knows, hop] using h
    simp [Option.isSome_iff_ne_none.1 hbuiltIn]

/-- A rule whose operator has a meaning, whatever its value, raises no unknown operator, and neither does a
group. -/
theorem raised?_of_knows (item : Json) {n : Node ι} (h : ∀ r, n = .rule r → e.Knows r.op) :
    e.raised? item n ≠ some .unknownOperator := by
  cases n with
  | rule r =>
    have hfailure := failure?_of_knows (h r rfl) (e.fieldValue item r.field)
    rw [raised?]
    cases r.value with
    | null => simp
    | _ => exact hfailure _
  | group i c cs =>
    cases c <;> cases cs <;> simp [raised?]

end Evaluator

/-! ### Trees without issues -/

namespace FilterConfig

variable {c : FilterConfig} {t : Tree}

/-- A rule of a tree without issues has an operator that is allowed for its field. -/
theorem allowed_of_issues_eq_nil (ht : c.issues t = []) {r : Rule String} (hr : .rule r ∈ t.walk) :
    ∃ f ∈ c.fields, r.op ∈ c.allowedOperators f := by
  have hrule : r ∈ t.rules := List.mem_filterMap.2 ⟨.rule r, hr, rfl⟩
  have hissue : c.issue? r = none := List.filterMap_eq_nil_iff.1 ht r hrule
  unfold issue? at hissue
  split at hissue
  next => cases hissue
  next f hf =>
    split at hissue
    next hop => exact ⟨f, List.mem_of_find?_eq_some hf, List.contains_iff_mem.1 hop⟩
    next => cases hissue

/-- **Where every operator that a configuration allows has a meaning, neither a tree without issues nor any
part of it on its own meets an unknown operator on any item, and the counter of such anomalies stays where it
is.** -/
theorem known_of_issues_eq_nil {e : Evaluator}
    (hknown : ∀ f ∈ c.fields, ∀ op ∈ c.allowedOperators f, e.Knows op) (ht : c.issues t = [])
    (item : Json) :
    Event.anomaly .unknownOperator ∉ (e.tree item t).events ∧
    ∀ n ∈ t.walk, Event.anomaly .unknownOperator ∉ (e.node item n).events ∧
      ∀ h : Host,
        Metric.level (Host.witness (e.node item n).events h).2.metrics Anomaly.unknownOperator.counter =
          Metric.level h.metrics Anomaly.unknownOperator.counter := by
  have hraised : ∀ n ∈ t.walk, ∀ s ∈ e.reachedSites item n,
      e.raised? item s.node ≠ some .unknownOperator := by
    intro n hn s hs
    refine Evaluator.raised?_of_knows item fun r hr => ?_
    have hnode : s.node ∈ n.walk := Node.node_mem_walk ((List.mem_filter.1 hs).1)
    have hwalk : s.node ∈ t.walk := Node.walk_subset_walk (n := t.toNode) hn hnode
    obtain ⟨f, hf, hop⟩ := allowed_of_issues_eq_nil ht (hr ▸ hwalk)
    exact hknown f hf r.op hop
  have hevents : ∀ n ∈ t.walk, Event.anomaly .unknownOperator ∉ (e.node item n).events := by
    intro n hn hmem
    rw [Evaluator.events_node, List.mem_flatMap] at hmem
    obtain ⟨s, hs, hmem⟩ := hmem
    exact hraised n hn s hs (e.raised?_of_mem_happening item hmem)
  refine ⟨hevents t.toNode List.mem_cons_self, fun n hn => ⟨hevents n hn, fun h => ?_⟩⟩
  rw [Evaluator.level_counter_witness, List.countP_eq_zero.2, Nat.add_zero]
  intro s hs
  simpa using hraised n hn s hs

/-- Ages are compared by `gt` or by an operator of the host. -/
def ageConfig : FilterConfig :=
  ⟨[{ field := "age", label := "Age", component := Component.number, operators := some ["near", "gt"] }], none⟩

/-- An operator of the host, which always fails. -/
def failingNear : Evaluator := Evaluator.withOperator {} "near" fun _ _ => none

/-- Two rules on ages, and a third in a group of an unknown combinator. -/
def ageTree : Tree :=
  ⟨"root", .or, [.rule ⟨"n", "age", "near", .nat 5, Component.number, none⟩,
    .group "x" (.other "xor" (by decide)) [.rule ⟨"m", "age", "near", .nat 6, Component.number, none⟩],
    .rule ⟨"r", "age", "gt", .null, Component.number, none⟩]⟩

/-- The first rule fails and the combinator is unknown, the operators are not. -/
theorem known_of_issues_eq_nil_ageTree :
    (∀ f ∈ ageConfig.fields, ∀ op ∈ ageConfig.allowedOperators f, failingNear.Knows op) ∧
      ageConfig.issues ageTree = [] ∧
      Event.anomaly .unknownOperator ∉ (failingNear.tree (.obj [("age", .nat 7)]) ageTree).events ∧
      (failingNear.tree (.obj [("age", .nat 7)]) ageTree).events =
        [.operated "near" (some (.nat 7)) (.nat 5), .anomaly .operatorFailed,
          .anomaly .unknownCombinator] := by
  have hknown : ∀ f ∈ ageConfig.fields, ∀ op ∈ ageConfig.allowedOperators f, failingNear.Knows op := by
    intro f hf op hop
    obtain rfl := List.mem_singleton.1 hf
    obtain rfl | hop := List.mem_cons.1 hop
    · exact .inr rfl
    · obtain rfl := List.mem_singleton.1 hop
      exact .inl ⟨.greater, rfl⟩
  have ht : ageConfig.issues ageTree = [] := by decide
  exact ⟨hknown, ht, (known_of_issues_eq_nil hknown ht _).1, rfl⟩

end FilterConfig

end Sieve
