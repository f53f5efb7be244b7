import Sieve.Filter.Evaluation
import Sieve.Proofs.Tree.Sites

/-!
# What evaluation means

Evaluation stops at the first child that decides a group.  Its denotation is told without that.

* `Evaluator.truth`: whether an item passes a node, where every child of every group is evaluated;
* `Evaluator.calls`, `Evaluator.raised?`: what a node does of its own, the handlers that it calls and
  the anomaly that it raises;
* `Evaluator.reached`: whether evaluation gets to the end of a way.  A group gets to a child if the
  children before it have not decided the group yet;
* `Evaluator.holds_node`, `Evaluator.events_node`: evaluation finds the truth, and what happens
  meanwhile is what happens at the sites that are reached, in their order.
-/

namespace Sieve

variable {ι : Type}

/-- Whether a group gets to a child after children with the given truths: an `and` if all of them
hold, an `or` if none of them does. -/
def Combinator.opens : Combinator → List Bool → Bool
  | .and, bs => bs.all id
  | .or, bs => bs.all (!·)
  | .other _ _, _ => false

theorem Combinator.opens_append (c : Combinator) (bs cs : List Bool) :
    c.opens (bs ++ cs) = (c.opens bs && c.opens cs) := by
  cases c with
  | and => simp [opens]
  | or => simp [opens]
  | other => rfl

namespace Evaluator

variable (e : Evaluator) (item : Json)

/-! ### Truth -/

/-- The value of a field of the item. -/
def fieldValue (field : String) : Option Json :=
  match e.extractor? field with
  | some x => x item
  | none => item.at? field

/-- What an operator says of a field and a value; one that fails or that nobody knows says no. -/
def decides (op : String) (field : Option Json) (value : Json) : Bool :=
  match e.operator? op with
  | some h => (h field value).getD false
  | none => (Operator.ofName? op).any fun o => o.holds field value

/-- Whether the item passes a rule.  With the value null only the presence of the field counts. -/
def passes (r : Rule ι) : Bool :=
  match r.value with
  | .null =>
    if r.op = Operator.equal.name then isAbsent (e.fieldValue item r.field)
    else !isAbsent (e.fieldValue item r.field)
  | value => e.decides r.op (e.fieldValue item r.field) value

mutual

/-- Whether the item passes a node, where every child of every group is evaluated. -/
def truth : Node ι → Bool
  | .rule r => e.passes item r
  | .group _ _ [] => true
  | .group _ .and (n :: ns) => (truths (n :: ns)).all id
  | .group _ .or (n :: ns) => (truths (n :: ns)).any id
  | .group _ (.other _ _) (_ :: _) => false

/-- Whether the item passes each node of a row. -/
def truths : List (Node ι) → List Bool
  | [] => []
  | n :: ns => truth n :: truths ns

end

/-! ### Calls and anomalies -/

/-- What an operator raises on a field and a value. -/
def failure? (op : String) (field : Option Json) (value : Json) : Option Anomaly :=
  match e.operator? op with
  | some h => if (h field value).isNone then some .operatorFailed else none
  | none => if (Operator.ofName? op).isNone then some .unknownOperator else none

/-- The calls of handlers that a node makes of its own: the extractor of the field, and the operator
unless the value is null. -/
def calls : Node ι → List Event
  | .rule r =>
    ((e.extractor? r.field).toList.map fun _ => .extracted r.field) ++
      match r.value with
      | .null => []
      | value =>
        (e.operator? r.op).toList.map fun _ => .operated r.op (e.fieldValue item r.field) value
  | .group _ _ _ => []

/-- The anomaly that a node raises of its own. -/
def raised? : Node ι → Option Anomaly
  | .rule r =>
    match r.value with
    | .null => none
    | value => e.failure? r.op (e.fieldValue item r.field) value
  | .group _ (.other _ _) (_ :: _) => some .unknownCombinator
  | .group _ _ _ => none

/-- What happens at a node itself. -/
def happening (n : Node ι) : List Event :=
  e.calls item n ++ (e.raised? item n).toList.map .anomaly

/-- Whether evaluation gets to the end of a way: each group on it gets to the child that the way goes
through. -/
def reached : Node ι → List Nat → Bool
  | _, [] => true
  | .rule _, _ :: _ => false
  | .group _ c cs, k :: path =>
    c.opens ((cs.take k).map (e.truth item)) && (cs[k]?).any fun n => reached n path

/-- The sites that evaluation gets to. -/
def reachedSites (n : Node ι) : List (Site ι) := n.sites.filter fun s => e.reached item n s.path

/-! ### Truth is what evaluation finds -/

@[simp] theorem truths_eq_map (ns : List (Node ι)) : e.truths item ns = ns.map (e.truth item) := by
  induction ns with
  | nil => rfl
  | cons n ns ih => rw [truths, ih, List.map_cons]

theorem fieldOf_eq (field : String) : e.fieldOf item field = (e.fieldValue item field,
    (e.extractor? field).toList.map fun _ => .extracted field) := by
  unfold fieldOf fieldValue
  cases e.extractor? field with
  | none => rfl
  | some x => rfl

theorem operate_eq (op : String) (field : Option Json) (value : Json) :
    e.operate op field value = ⟨e.decides op field value,
      ((e.operator? op).toList.map fun _ => .operated op field value) ++
        (e.failure? op field value).toList.map .anomaly⟩ := by
  unfold operate decides failure?
  cases e.operator? op with
  | some h =>
    dsimp only
    cases h field value with
    | some b => rfl
    | none => rfl
  | none =>
    dsimp only
    cases Operator.ofName? op with
    | some o => rfl
    | none => rfl

/-- A rule is decided by its denotation, and what happens meanwhile is what happens at its site. -/
theorem rule_eq (r : Rule ι) :
    e.rule item r = ⟨e.passes item r, e.happening item (.rule r)⟩ := by
  simp only [rule, fieldOf_eq, passes, happening, calls, raised?]
  cases hv : r.value <;> simp [operate_eq]

mutual

/-- Evaluation decides by the denotation. -/
theorem holds_node : ∀ n : Node ι, (e.node item n).holds = e.truth item n
  | .rule r => by rw [node, truth, rule_eq]
  | .group _ _ [] => by rw [node, truth]
  | .group _ .and (n :: ns) => by rw [node, truth, holds_all (n :: ns)]
  | .group _ .or (n :: ns) => by rw [node, truth, holds_any (n :: ns)]
  | .group _ (.other _ _) (_ :: _) => by rw [node, truth]

theorem holds_all : ∀ ns : List (Node ι), (e.all item ns).holds = (e.truths item ns).all id
  | [] => rfl
  | n :: ns => by
    rw [all, truths, List.all_cons, ← holds_node n, ← holds_all ns]
    cases h : (e.node item n).holds <;> simp [h]

theorem holds_any : ∀ ns : List (Node ι), (e.any item ns).holds = (e.truths item ns).any id
  | [] => rfl
  | n :: ns => by
    rw [any, truths, List.any_cons, ← holds_node n, ← holds_any ns]
    cases h : (e.node item n).holds <;> simp [h]

end

/-! ### What evaluation gets to -/

/-- The sites below children of a group that evaluation gets to, the children before them being
`before`. -/
def reachedFrom (i : ι) (c : Combinator) (before ns : List (Node ι)) : List (Site ι) :=
  (Node.sitesFrom before.length ns).filter fun s =>
    e.reached item (.group i c (before ++ ns)) s.path

theorem reached_nil (n : Node ι) : e.reached item n [] = true := by
  cases n <;> rfl

theorem reachedSites_rule (r : Rule ι) : e.reachedSites item (.rule r) = [⟨[], .rule r⟩] := by
  simp [reachedSites, Node.sites, reached_nil]

theorem reachedSites_group (i : ι) (c : Combinator) (cs : List (Node ι)) :
    e.reachedSites item (.group i c cs) =
      ⟨[], .group i c cs⟩ :: e.reachedFrom item i c [] cs := by
  have hroot : e.reached item (.group i c cs) [] = true := e.reached_nil item _
  simp only [reachedSites, Node.sites, List.filter_cons, hroot, if_true]
  rfl

/-- The way to a child, and from there on. -/
theorem reached_child (i : ι) (c : Combinator) (before : List (Node ι)) (n : Node ι)
    (ns : List (Node ι)) (path : List Nat) :
    e.reached item (.group i c (before ++ n :: ns)) (before.length :: path) =
      (c.opens (before.map (e.truth item)) && e.reached item n path) := by
  have hget : (before ++ n :: ns)[before.length]? = some n := by
    simp
  rw [reached, List.take_left' rfl, hget]
  rfl

/-- What is reached below the next child, and after it. -/
theorem reachedFrom_cons (i : ι) (c : Combinator) (before : List (Node ι)) (n : Node ι)
    (ns : List (Node ι)) : e.reachedFrom item i c before (n :: ns) =
      (if c.opens (before.map (e.truth item)) then
        (e.reachedSites item n).map (Site.below before.length) else []) ++
      e.reachedFrom item i c (before ++ [n]) ns := by
  -- with `n` counted among the children before, the row starts one place further on
  have hrest : e.reachedFrom item i c (before ++ [n]) ns =
      (Node.sitesFrom (before.length + 1) ns).filter fun s =>
        e.reached item (.group i c (before ++ n :: ns)) s.path := by
    rw [reachedFrom, List.append_assoc, List.length_append]
    rfl
  rw [reachedFrom, Node.sitesFrom, List.filter_append, ← hrest, List.filter_map]
  congr 1
  have hchild : ((fun s : Site ι => e.reached item (.group i c (before ++ n :: ns)) s.path) ∘
      Site.below before.length) = fun s : Site ι =>
        c.opens (before.map (e.truth item)) && e.reached item n s.path := by
    funext s
    exact e.reached_child item i c before n ns s.path
  rw [hchild]
  cases c.opens (before.map (e.truth item)) with
  | true => simp [reachedSites]
  | false => simp

/-- Where a group does not go on, nothing more of it is reached. -/
theorem reachedFrom_closed (i : ι) (c : Combinator) (before ns : List (Node ι))
    (hc : c.opens (before.map (e.truth item)) = false) : e.reachedFrom item i c before ns = [] := by
  induction ns generalizing before with
  | nil => rfl
  | cons n ns ih =>
    have hclosed : c.opens ((before ++ [n]).map (e.truth item)) = false := by
      rw [List.map_append, Combinator.opens_append, hc, Bool.false_and]
    rw [reachedFrom_cons, hc, ih _ hclosed]
    rfl

/-- What happens at the sites below a child. -/
theorem flatMap_below (k : Nat) (ss : List (Site ι)) :
    (ss.map (Site.below k)).flatMap (fun s => e.happening item s.node) =
      ss.flatMap fun s => e.happening item s.node := by
  rw [List.flatMap_map]
  rfl

mutual

/-- What happens in an evaluation is what happens at the sites that it gets to. -/
theorem events_node : ∀ n : Node ι, (e.node item n).events =
    (e.reachedSites item n).flatMap fun s => e.happening item s.node
  | .rule r => by
    rw [node, rule_eq, reachedSites_rule, List.flatMap_singleton]
  | .group i c [] => by
    rw [node, reachedSites_group, List.flatMap_cons]
    cases c <;> rfl
  | .group i .and (n :: ns) => by
    rw [node, reachedSites_group, List.flatMap_cons, events_all i (n :: ns) [] rfl]
    rfl
  | .group i .or (n :: ns) => by
    rw [node, reachedSites_group, List.flatMap_cons, events_any i (n :: ns) [] rfl]
    rfl
  | .group i (.other name h) (n :: ns) => by
    rw [node, reachedSites_group, reachedFrom_closed _ _ _ _ _ _ rfl, List.flatMap_singleton]
    rfl

theorem events_all (i : ι) : ∀ (ns before : List (Node ι)),
    Combinator.and.opens (before.map (e.truth item)) = true → (e.all item ns).events =
      (e.reachedFrom item i .and before ns).flatMap fun s => e.happening item s.node
  | [], _, _ => rfl
  | n :: ns, before, hc => by
    -- the children before `n` hold, so the group gets past `n` just when `n` holds too
    have hopens : Combinator.and.opens ((before ++ [n]).map (e.truth item)) = e.truth item n := by
      rw [List.map_append, Combinator.opens_append, hc]
      simp [Combinator.opens]
    rw [all, reachedFrom_cons, if_pos hc, List.flatMap_append, flatMap_below, ← events_node n,
      holds_node]
    cases hn : e.truth item n with
    | true =>
      rw [if_pos rfl, ← events_all i ns (before ++ [n]) (hopens.trans hn)]
    | false =>
      rw [if_neg Bool.false_ne_true, reachedFrom_closed _ _ _ _ _ _ (hopens.trans hn),
        List.flatMap_nil, List.append_nil]

theorem events_any (i : ι) : ∀ (ns before : List (Node ι)),
    Combinator.or.opens (before.map (e.truth item)) = true → (e.any item ns).events =
      (e.reachedFrom item i .or before ns).flatMap fun s => e.happening item s.node
  | [], _, _ => rfl
  | n :: ns, before, hc => by
    -- none of the children before `n` holds, so the group gets past `n` unless `n` does
    have hopens : Combinator.or.opens ((before ++ [n]).map (e.truth item)) = !e.truth item n := by
      rw [List.map_append, Combinator.opens_append, hc]
      simp [Combinator.opens]
    rw [any, reachedFrom_cons, if_pos hc, List.flatMap_append, flatMap_below, ← events_node n,
      holds_node]
    cases hn : e.truth item n with
    | true =>
      rw [hn] at hopens
      rw [if_pos rfl, reachedFrom_closed _ _ _ _ _ _ hopens, List.flatMap_nil, List.append_nil]
    | false =>
      rw [hn] at hopens
      rw [if_neg Bool.false_ne_true, ← events_any i ns (before ++ [n]) hopens]

end

end Evaluator

end Sieve
