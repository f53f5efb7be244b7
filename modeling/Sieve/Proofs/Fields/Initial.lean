import Sieve.Fields
import Sieve.Proofs.Tree.Ids

/-!
# The initial tree

The rule that a new tree has for a field takes its operator from the default of the field, or else from
what is usual for its component; which operators it may have, the field says first.  So a field that lists
operators without a default may begin with one that it does not list.

* `FilterConfig.usualOperator`: the operator of a new rule on a field that has no default of its own;
* `FilterConfig.rules_initialTree`: but for their ids, the rules of the initial tree are the default rules
  of the fields, in their order;
* `FilterConfig.Strays`: a field whose own operators lack the one that its rule begins with;
* `FilterConfig.issues_initialTree`: the initial tree has one issue for each such field and no other.
-/

namespace Sieve

namespace FilterConfig

variable {c : FilterConfig} {f : FieldConfig}

/-! ### Operators of a new rule -/

/-- The operator of a new rule on a field of a component, if the field has no default. -/
def usualOperator (c : FilterConfig) (component : String) : String :=
  ((c.tableFor component).bind List.head?).getD ((builtIn component).head?.getD Operator.equal.name)

theorem defaultOperator_eq (c : FilterConfig) (f : FieldConfig) :
    c.defaultOperator f = f.defaultOperator.getD (c.usualOperator f.component) := by
  unfold defaultOperator usualOperator
  cases f.defaultOperator with
  | some op => rfl
  | none => cases (c.tableFor f.component).bind List.head? <;> rfl

/-- The field lists operators but no default, and the usual operator of its component is not among them. -/
def Strays (c : FilterConfig) (f : FieldConfig) : Prop :=
  f.defaultOperator = none ∧ ∃ ops, f.operators = some ops ∧ c.usualOperator f.component ∉ ops

/-- What is usual for a component is the first of the operators that it offers. -/
theorem usualOperator_mem (h : (c.tableFor f.component).getD (builtIn f.component) ≠ []) :
    c.usualOperator f.component ∈ (c.tableFor f.component).getD (builtIn f.component) := by
  unfold usualOperator
  cases ht : c.tableFor f.component with
  | some ops =>
    cases ops with
    | nil => simp [ht] at h
    | cons op ops => simp
  | none =>
    cases hb : builtIn f.component with
    | nil => simp [ht, hb] at h
    | cons op ops => simp

theorem defaultOperator_mem_iff (hsome : c.allowedOperators f ≠ [])
    (hown : ∀ op ∈ f.defaultOperator, op ∈ c.allowedOperators f) :
    c.defaultOperator f ∈ c.allowedOperators f ↔ ¬ c.Strays f := by
  rw [defaultOperator_eq]
  unfold Strays
  cases hdefault : f.defaultOperator with
  | some op => simpa using hown op hdefault
  | none =>
    unfold allowedOperators at hsome ⊢
    cases hops : f.operators with
    | some ops => simp
    | none =>
      rw [hops] at hsome
      simpa using usualOperator_mem hsome

/-! ### Rules of the initial tree -/

theorem rules_initialTree (c : FilterConfig) (ids : IdSupply) :
    (c.initialTree ids).1.rules.map (Rule.mapId fun _ => ()) = c.fields.map c.defaultRule := by
  have hwalk : Node.walkAll (c.fields.map fun f => .rule (c.defaultRule f)) =
      c.fields.map fun f => Node.rule (c.defaultRule f) := by
    rw [Node.walkAll_eq_flatMap, List.flatMap_map, List.map_eq_flatMap]
    rfl
  have hrule : Node.asRule? ∘ (fun f => Node.rule (c.defaultRule f)) = some ∘ c.defaultRule := rfl
  have hdraft : c.initialDraft.rules = c.fields.map c.defaultRule := by
    show List.filterMap Node.asRule? (_ :: Node.walkAll (c.fields.map fun f => .rule (c.defaultRule f))) = _
    rw [List.filterMap_cons_none rfl, hwalk, List.filterMap_map, hrule, List.filterMap_eq_map]
  rw [initialTree, Group.rules_assign, hdraft]

theorem field?_of_mem (hnames : (c.fields.map (·.field)).Nodup) (hf : f ∈ c.fields) :
    c.field? f.field = some f := find?_of_nodup_map hnames hf

/-- What is wrong with the rule of a field, if its operator is. -/
theorem issue?_eq_some_iff (hnames : (c.fields.map (·.field)).Nodup) (hf : f ∈ c.fields)
    (hmem : c.defaultOperator f ∈ c.allowedOperators f ↔ ¬ c.Strays f) {r : Rule String}
    (hr : c.defaultRule f = r.mapId fun _ => ()) {i : Issue} :
    c.issue? r = some i ↔
      c.Strays f ∧ i = .operatorNotAllowed r.id f.field (c.usualOperator f.component) := by
  have hfield : r.field = f.field := (congrArg Rule.field hr).symm
  have hop : r.op = c.defaultOperator f := (congrArg Rule.op hr).symm
  have hallowed : r.op ∈ c.allowedOperators f ↔ ¬ c.Strays f := by rw [hop, hmem]
  rw [issue?, hfield, field?_of_mem hnames hf]
  by_cases hs : c.Strays f
  · have husual : c.usualOperator f.component = r.op := by
      rw [hop, defaultOperator_eq, hs.1, Option.getD_none]
    have hstray : r.op ∉ c.allowedOperators f := fun h => hallowed.1 h hs
    simp [hs, hstray, husual, eq_comm]
  · simp [hallowed, hs]

/-- The issues of the initial tree are those of the fields that stray. -/
theorem mem_issues_initialTree_iff (hnames : (c.fields.map (·.field)).Nodup)
    (hmem : ∀ f ∈ c.fields, c.defaultOperator f ∈ c.allowedOperators f ↔ ¬ c.Strays f)
    (ids : IdSupply) (i : Issue) :
    i ∈ c.issues (c.initialTree ids).1 ↔ ∃ r ∈ (c.initialTree ids).1.rules, ∃ f ∈ c.fields,
      r.field = f.field ∧ c.Strays f ∧
        i = .operatorNotAllowed r.id f.field (c.usualOperator f.component) := by
  rw [issues, List.mem_filterMap]
  refine exists_congr fun r => and_congr_right fun hr => ?_
  -- the rule is that of a field, and the name tells of which
  obtain ⟨f, hf, hfr⟩ := List.mem_map.1 (c.rules_initialTree ids ▸ List.mem_map_of_mem hr)
  have hname : r.field = f.field := (congrArg Rule.field hfr).symm
  rw [issue?_eq_some_iff hnames hf (hmem f hf) hfr]
  constructor
  · intro h
    exact ⟨f, hf, hname, h⟩
  · rintro ⟨f', hf', hname', h⟩
    have hfind : c.field? r.field = some f := hname ▸ field?_of_mem hnames hf
    have hfind' : c.field? r.field = some f' := hname' ▸ field?_of_mem hnames hf'
    obtain rfl : f = f' := Option.some.inj (hfind.symm.trans hfind')
    exact h

/-- **In a configuration without repeated names, where every field allows some operators and its default is
one of them, a new rule has an operator that its field allows unless the field strays, and what is wrong
with the initial tree is the operators of these fields.** -/
theorem issues_initialTree (hnames : (c.fields.map (·.field)).Nodup)
    (hsome : ∀ f ∈ c.fields, c.allowedOperators f ≠ [])
    (hown : ∀ f ∈ c.fields, ∀ op ∈ f.defaultOperator, op ∈ c.allowedOperators f) (ids : IdSupply) :
    (∀ f ∈ c.fields, c.defaultOperator f ∈ c.allowedOperators f ↔ ¬ c.Strays f) ∧
    (c.issues (c.initialTree ids).1 = [] ↔ ∀ f ∈ c.fields, ¬ c.Strays f) ∧
    ∀ i, i ∈ c.issues (c.initialTree ids).1 ↔ ∃ r ∈ (c.initialTree ids).1.rules, ∃ f ∈ c.fields,
      r.field = f.field ∧ c.Strays f ∧
        i = .operatorNotAllowed r.id f.field (c.usualOperator f.component) := by
  have hmem : ∀ f ∈ c.fields, c.defaultOperator f ∈ c.allowedOperators f ↔ ¬ c.Strays f :=
    fun f hf => defaultOperator_mem_iff (hsome f hf) (hown f hf)
  have hissues := mem_issues_initialTree_iff hnames hmem ids
  refine ⟨hmem, ⟨fun hnil f hf hs => ?_, fun hstray => ?_⟩, hissues⟩
  · obtain ⟨r, hr, hfr⟩ := List.mem_map.1 ((c.rules_initialTree ids).symm ▸ List.mem_map_of_mem hf)
    have hi := (hissues _).2 ⟨r, hr, f, hf, congrArg Rule.field hfr, hs, rfl⟩
    rw [hnil] at hi
    cases hi
  · refine List.eq_nil_iff_forall_not_mem.2 fun i hi => ?_
    obtain ⟨-, -, f, hf, -, hs, -⟩ := (hissues i).1 hi
    exact hstray f hf hs

/-- A strength is compared with a bound, and the operators for that are listed without a default. -/
def strengthField : FieldConfig :=
  { field := "abv", label := "Strength", component := Component.number, operators := some ["gt", "lt"] }

/-- A field whose component is in the table, one with a default of its own, and one that strays. -/
def beerConfig : FilterConfig where
  fields := [{ field := "name", label := "Name", component := Component.text },
    { field := "style", label := "Style", component := Component.select, operators := some ["ne", "in"],
      defaultOperator := some "in" }, strengthField]
  operators := some [(Component.text, ["contains"])]

/-- Ids for the root and three rules. -/
def fourIds : IdSupply := ⟨fun n => ["root", "a", "b", "c"].getD n "", 0⟩

/-- Only the last of three rules begins with an operator that its field does not allow. -/
theorem issues_initialTree_beerConfig :
    (beerConfig.fields.map (·.field)).Nodup ∧
      (∀ f ∈ beerConfig.fields, beerConfig.allowedOperators f ≠ []) ∧
      (∀ f ∈ beerConfig.fields, ∀ op ∈ f.defaultOperator, op ∈ beerConfig.allowedOperators f) ∧
      beerConfig.fields.map beerConfig.defaultOperator = ["contains", "in", "eq"] ∧
      .operatorNotAllowed "c" "abv" "eq" ∈ beerConfig.issues (beerConfig.initialTree fourIds).1 := by
  have hnames : (beerConfig.fields.map (·.field)).Nodup := by decide
  have hsome : ∀ f ∈ beerConfig.fields, beerConfig.allowedOperators f ≠ [] := by
    simp [beerConfig, strengthField, allowedOperators, tableFor, Keyed.lookup]
  have hown : ∀ f ∈ beerConfig.fields, ∀ op ∈ f.defaultOperator, op ∈ beerConfig.allowedOperators f := by
    simp [beerConfig, strengthField, allowedOperators]
  have hstrays : beerConfig.Strays strengthField := ⟨rfl, _, rfl, by decide⟩
  refine ⟨hnames, hsome, hown, rfl, ?_⟩
  have hrule : ⟨"c", "abv", "eq", .null, Component.number, none⟩ ∈ (beerConfig.initialTree fourIds).1.rules :=
    List.mem_of_getLast? rfl
  have hfield : strengthField ∈ beerConfig.fields := List.mem_of_getLast? rfl
  exact ((issues_initialTree hnames hsome hown fourIds).2.2 _).2
    ⟨_, hrule, strengthField, hfield, rfl, hstrays, rfl⟩

/-- A configuration of one field that strays. -/
def strengthConfig : FilterConfig := { fields := [strengthField] }

/-- Distinct names, operators for every field and allowed defaults are not enough. -/
theorem issues_initialTree_strengthConfig :
    (strengthConfig.fields.map (·.field)).Nodup ∧
      (∀ f ∈ strengthConfig.fields, strengthConfig.allowedOperators f ≠ []) ∧
      (∀ f ∈ strengthConfig.fields, ∀ op ∈ f.defaultOperator, op ∈ strengthConfig.allowedOperators f) ∧
      strengthConfig.defaultOperator strengthField ∉ strengthConfig.allowedOperators strengthField ∧
      strengthConfig.issues (strengthConfig.initialTree fourIds).1 = [.operatorNotAllowed "a" "abv" "eq"] := by
  refine ⟨by decide, ?_, ?_, by decide, by decide⟩
  · simp [strengthConfig, strengthField, allowedOperators]
  · simp [strengthConfig, strengthField]

end FilterConfig

end Sieve
