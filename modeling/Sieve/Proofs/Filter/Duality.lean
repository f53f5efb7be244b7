import Sieve.Proofs.Filter.Monotone

/-!
# Dual trees

Equality and difference say the opposite of each other, whatever field and value they are asked about, and so do
membership and its absence.  Where only these are asked, the tree with `and` and `or` exchanged and every operator
turned into its opposite holds just where the tree does not.

* `Operator.opposite`, `Combinator.dual`, `Node.dual`: what is exchanged;
* `Operator.holds_opposite`: the four operators say the opposite of each other;
* `Evaluator.Dualizable`: the trees that have a dual;
* `Evaluator.dual_complements`: an item passes the dual of a tree just if it does not pass the tree.
-/

namespace Sieve

variable {ι : Type}

/-! ### What is exchanged -/

namespace Operator

/-- The operators that have an opposite. -/
def twoSided : List Operator := [equal, different, among, notAmong]

/-- The operator that says the opposite; one that has no opposite stands for itself. -/
def opposite : Operator → Operator
  | equal => different
  | different => equal
  | among => notAmong
  | notAmong => among
  | op => op

theorem ofName?_name (op : Operator) : ofName? op.name = some op := by cases op <;> decide

/-- The opposite of an operator says the opposite: of every field, also an absent one, and every value. -/
theorem holds_opposite {op : Operator} (hop : op ∈ twoSided) (field : Option Json) (value : Json) :
    op.opposite.holds field value = !op.holds field value := by
  cases op with
  | equal => rfl
  | different => exact (Bool.not_not _).symm
  | among => exact holds_notAmong field value
  | notAmong => rw [holds_notAmong, Bool.not_not]; rfl
  | _ => exact absurd hop (by decide)

end Operator

namespace Combinator

/-- Exchanges `and` and `or`. -/
def dual : Combinator → Combinator
  | and => or
  | or => and
  | other name h => other name h

/-- A group of opposite children under the other combinator has the opposite truth. -/
theorem verdict_dual {c : Combinator} (hc : c = .and ∨ c = .or) {bs : List Bool} (hne : bs ≠ []) :
    c.dual.verdict (bs.map (!·)) = !c.verdict bs := by
  have hempty : bs.isEmpty = false := List.isEmpty_eq_false_iff.2 hne
  rcases hc with rfl | rfl
  · simp only [verdict, dual, List.isEmpty_map, hempty, Bool.false_or, List.not_all_eq_any_not, List.any_map]
    rfl
  · simp only [verdict, dual, List.isEmpty_map, hempty, Bool.false_or, List.not_any_eq_all_not, List.all_map]
    rfl

end Combinator

/-- Turns the operator of a rule into its opposite, and keeps the rest. -/
def Rule.dual (r : Rule ι) : Rule ι :=
  { r with op := ((Operator.ofName? r.op).map fun op => op.opposite.name).getD r.op }

mutual

/-- Exchanges all combinators of a node and turns all operators into their opposites. -/
def Node.dual : Node ι → Node ι
  | .rule r => .rule r.dual
  | .group i c cs => .group i c.dual (Node.dualAll cs)

/-- The duals of several nodes. -/
def Node.dualAll : List (Node ι) → List (Node ι)
  | [] => []
  | n :: ns => Node.dual n :: Node.dualAll ns

end

/-- Exchanges all combinators of a tree and turns all operators into their opposites. -/
def Group.dual (g : Group ι) : Group ι := ⟨g.id, g.combinator.dual, Node.dualAll g.children⟩

/-! ### Trees that have a dual -/

namespace Evaluator

variable (e : Evaluator) (item : Json)

/-- A rule asks for a built-in operator that has an opposite, where neither of the two has another meaning.  With
the value null it asks for equality or difference. -/
def Opposable (r : Rule ι) : Prop :=
  ∃ op ∈ Operator.twoSided, r.op = op.name ∧ e.operator? op.name = none ∧ e.operator? op.opposite.name = none ∧
    (r.value = .null → op = .equal ∨ op = .different)

/-- All rules ask for operators that have an opposite, and every group is an `and` or an `or` with children. -/
structure Dualizable (n : Node ι) : Prop where
  rules : ∀ r, .rule r ∈ n.walk → e.Opposable r
  groups : ∀ i c cs, .group i c cs ∈ n.walk → cs ≠ [] ∧ (c = .and ∨ c = .or)

variable {e}

theorem Dualizable.child {i : ι} {c : Combinator} {cs : List (Node ι)} (h : e.Dualizable (.group i c cs))
    {n : Node ι} (hn : n ∈ cs) : e.Dualizable n := by
  have hwalk {m : Node ι} (hm : m ∈ n.walk) : m ∈ (Node.group i c cs).walk := by
    rw [Node.walk, Node.walkAll_eq_flatMap]
    exact List.mem_cons_of_mem _ (List.mem_flatMap.2 ⟨n, hn, hm⟩)
  exact ⟨fun r hr => h.rules r (hwalk hr), fun i c cs hcs => h.groups i c cs (hwalk hcs)⟩

/-! ### Rules -/

theorem passes_of_null {r : Rule ι} (h : r.value = .null) : e.passes item r =
    if r.op = Operator.equal.name then isAbsent (e.fieldValue item r.field)
    else !isAbsent (e.fieldValue item r.field) := by
  rw [passes, h]

theorem passes_of_ne_null {r : Rule ι} (h : r.value ≠ .null) :
    e.passes item r = e.decides r.op (e.fieldValue item r.field) r.value := by
  unfold passes
  split
  next hnull => exact absurd hnull h
  next => rfl

/-- A built-in operator decides where nothing else is registered under its name. -/
theorem decides_builtIn {op : Operator} (h : e.operator? op.name = none) (field : Option Json) (value : Json) :
    e.decides op.name field value = op.holds field value := by
  simp only [decides, h, Operator.ofName?_name, Option.any_some]

/-- An item passes the opposite of a rule just if it does not pass the rule. -/
theorem passes_dual {r : Rule ι} (h : e.Opposable r) : e.passes item r.dual = !e.passes item r := by
  obtain ⟨op, hop, hname, hown, hopposite, hnull⟩ := h
  have hdual : r.dual.op = op.opposite.name := by
    rw [Rule.dual, hname, Operator.ofName?_name]
    rfl
  by_cases hv : r.value = .null
  · rw [passes_of_null item hv, passes_of_null item (r := r.dual) hv, hdual, hname]
    rcases hnull hv with rfl | rfl
    · simp [Operator.opposite, Operator.name, Rule.dual]
    · simp [Operator.opposite, Operator.name, Rule.dual]
  · rw [passes_of_ne_null item hv, passes_of_ne_null item (r := r.dual) hv, hdual, hname, decides_builtIn hown,
      decides_builtIn hopposite]
    exact Operator.holds_opposite hop _ _

/-! ### Trees -/

mutual

theorem truth_dual : ∀ n : Node ι, e.Dualizable n → e.truth item n.dual = !e.truth item n
  | .rule r, h => by
    rw [Node.dual, truth, truth, passes_dual item (h.rules r List.mem_cons_self)]
  | .group i c cs, h => by
    obtain ⟨hne, hc⟩ := h.groups i c cs List.mem_cons_self
    rw [Node.dual, truth_group, truth_group, map_truth_dualAll cs fun n hn => h.child hn]
    exact Combinator.verdict_dual hc (by simpa using hne)

theorem map_truth_dualAll : ∀ ns : List (Node ι), (∀ n ∈ ns, e.Dualizable n) →
    (Node.dualAll ns).map (e.truth item) = (ns.map (e.truth item)).map (!·)
  | [], _ => rfl
  | n :: ns, h => by
    obtain ⟨hn, hns⟩ := List.forall_mem_cons.1 h
    rw [Node.dualAll, List.map_cons, truth_dual n hn, map_truth_dualAll ns hns]
    rfl

end

/-- **An item passes the dual of a tree just if it does not pass the tree**, whatever fields are absent and however
the values of fields are found. -/
theorem dual_complements (e : Evaluator) (item : Json) :
    (∀ n : Node ι, e.Dualizable n → (e.node item n.dual).holds = !(e.node item n).holds) ∧
    ∀ g : Group ι, e.Dualizable g.toNode → (e.tree item g.dual).holds = !(e.tree item g).holds := by
  have hnode : ∀ n : Node ι, e.Dualizable n → (e.node item n.dual).holds = !(e.node item n).holds := by
    intro n h
    rw [holds_node, holds_node, truth_dual item n h]
  exact ⟨hnode, fun g h => hnode g.toNode h⟩

/-- A rule that asks for the presence of a field, one whose value should be a list and is none, and one about a
field that is counted. -/
def mixedNode : Node String :=
  .group "g" .or
    [.rule ⟨"a", "brewery", "ne", .null, "text", none⟩,
      .group "h" .and
        [.rule ⟨"b", "tags", "nin", .str "ipa", "multiselect", none⟩,
          .rule ⟨"c", "styles", "in", .arr [.int 1, .int 2], "multiselect", none⟩]]

/-- Every item has two styles. -/
def countingEvaluator : Evaluator := Evaluator.withExtractor {} "styles" fun _ => some (.int 2)

/-- An item without a brewery and without tags passes the tree, and so does not pass its dual. -/
theorem dual_complements_mixedNode :
    countingEvaluator.Dualizable mixedNode ∧ (countingEvaluator.node (.obj []) mixedNode).holds = true ∧
    (countingEvaluator.node (.obj []) mixedNode.dual).holds = false := by
  have hdualizable : countingEvaluator.Dualizable mixedNode := by
    constructor
    · intro r hr
      simp only [mixedNode, Node.walk, Node.walkAll, List.mem_cons, List.append_nil, List.cons_append,
        List.nil_append, List.not_mem_nil, Node.rule.injEq, reduceCtorEq, false_or, or_false] at hr
      rcases hr with rfl | rfl | rfl
      · exact ⟨.different, by decide, rfl, rfl, rfl, fun _ => .inr rfl⟩
      · exact ⟨.notAmong, by decide, rfl, rfl, rfl, by rintro ⟨⟩⟩
      · exact ⟨.among, by decide, rfl, rfl, rfl, by rintro ⟨⟩⟩
    · intro i c cs hcs
      simp only [mixedNode, Node.walk, Node.walkAll, List.mem_cons, List.append_nil, List.cons_append,
        List.nil_append, List.not_mem_nil, Node.group.injEq, reduceCtorEq, false_or, or_false] at hcs
      rcases hcs with ⟨rfl, rfl, rfl⟩ | ⟨rfl, rfl, rfl⟩
      · exact ⟨List.cons_ne_nil _ _, .inr rfl⟩
      · exact ⟨List.cons_ne_nil _ _, .inl rfl⟩
  have hpasses : (countingEvaluator.node (.obj []) mixedNode).holds = true := by decide +kernel
  obtain ⟨hnode, -⟩ := dual_complements (ι := String) countingEvaluator (.obj [])
  exact ⟨hdualizable, hpasses, by rw [hnode mixedNode hdualizable, hpasses]; rfl⟩

end Evaluator

end Sieve
