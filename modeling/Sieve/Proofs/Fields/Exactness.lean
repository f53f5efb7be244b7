import Mathlib.Data.List.Forall2
import Sieve.Fields
import Sieve.Proofs.Store.Insertion
import Sieve.Proofs.Store.Removal

/-!
# What issues tell

The issues of a tree are one for each rule that something is wrong with, in the order of the walk, and no
others.

* `FilterConfig.Allows`: the operators of a field in words, by who says first; `FilterConfig.Faults` what is
  wrong with a rule.  `FilterConfig.issue?_eq_some_iff_faults` says that this is what is reported;
* `FilterConfig.issuesIn`: the issues of a row of sites, and `FilterConfig.issuesOf` those of a subtree on its
  own;
* `FilterConfig.issues_of_graft`: with one child more there are its issues more, in one stretch;
* `FilterConfig.issues_exact`: the issues of a tree, and what becomes of them when a store gets or loses a
  node.
-/

namespace Sieve

/-- What is read off the items of a list goes item by item with those off which something is read. -/
theorem forall₂_filter_filterMap {α β : Type} (read : α → Option β) (as : List α) :
    List.Forall₂ (fun a b => read a = some b) (as.filter fun a => (read a).isSome)
      (as.filterMap read) := by
  induction as with
  | nil => exact .nil
  | cons a as ih =>
    cases h : read a with
    | none => simpa [h] using ih
    | some b => simpa [h] using ih

namespace FilterConfig

variable {c : FilterConfig} {f : FieldConfig} {r : Rule String} {i : Issue} {op : String}

/-! ### Rules -/

/-- An operator that rules on a field may have: one of the field itself if it lists some, or else one that
the table has for its component, or else a built-in one of the component. -/
inductive Allows (c : FilterConfig) (f : FieldConfig) (op : String) : Prop
  | own {ops : List String} (hown : f.operators = some ops) (hop : op ∈ ops)
  | tabled {ops : List String} (hown : f.operators = none) (htable : c.tableFor f.component = some ops)
      (hop : op ∈ ops)
  | usual (hown : f.operators = none) (htable : c.tableFor f.component = none)
      (hop : op ∈ builtIn f.component)

theorem mem_allowedOperators_iff : op ∈ c.allowedOperators f ↔ c.Allows f op := by
  constructor
  · intro h
    unfold allowedOperators at h
    cases hown : f.operators with
    | some ops => exact .own hown (by simpa [hown] using h)
    | none =>
      cases htable : c.tableFor f.component with
      | some ops => exact .tabled hown htable (by simpa [hown, htable] using h)
      | none => exact .usual hown htable (by simpa [hown, htable] using h)
  · rintro (⟨hown, hop⟩ | ⟨hown, htable, hop⟩ | ⟨hown, htable, hop⟩)
    · simpa [allowedOperators, hown] using hop
    · simpa [allowedOperators, hown, htable] using hop
    · simpa [allowedOperators, hown, htable] using hop

/-- What is wrong with a rule: no field has its name, or the first field of that name does not allow its
operator. -/
inductive Faults (c : FilterConfig) (r : Rule String) : Issue → Prop
  | unknownField (hname : ∀ f ∈ c.fields, f.field ≠ r.field) : c.Faults r (.unknownField r.id r.field)
  | operatorNotAllowed {before after : List FieldConfig} {f : FieldConfig}
      (hfields : c.fields = before ++ f :: after) (hbefore : ∀ g ∈ before, g.field ≠ r.field)
      (hname : f.field = r.field) (hop : ¬ c.Allows f r.op) :
      c.Faults r (.operatorNotAllowed r.id r.field r.op)

theorem field?_eq_none_iff {name : String} : c.field? name = none ↔ ∀ f ∈ c.fields, f.field ≠ name := by
  simp [field?]

theorem field?_eq_some_iff {name : String} : c.field? name = some f ↔ f.field = name ∧
    ∃ before after, c.fields = before ++ f :: after ∧ ∀ g ∈ before, g.field ≠ name := by
  simp [field?, List.find?_eq_some_iff_append]

/-- What is reported of a rule is what is wrong with it. -/
theorem issue?_eq_some_iff_faults : c.issue? r = some i ↔ c.Faults r i := by
  constructor
  · intro h
    unfold issue? at h
    split at h
    next hf =>
      cases h
      exact .unknownField (field?_eq_none_iff.1 hf)
    next f hf =>
      obtain ⟨hname, before, after, hfields, hbefore⟩ := field?_eq_some_iff.1 hf
      split at h
      next => cases h
      next hop =>
        cases h
        refine .operatorNotAllowed hfields hbefore hname fun hallows => hop ?_
        exact List.contains_iff_mem.2 (mem_allowedOperators_iff.2 hallows)
  · rintro (hname | ⟨hfields, hbefore, hname, hop⟩)
    · rw [issue?, field?_eq_none_iff.2 hname]
    · rw [issue?, field?_eq_some_iff.2 ⟨hname, _, _, hfields, hbefore⟩]
      exact if_neg fun hmem => hop (mem_allowedOperators_iff.1 (List.contains_iff_mem.1 hmem))

/-! ### Rows of sites -/

/-- What is wrong with a node of its own; with a group nothing is. -/
def issueOf? (c : FilterConfig) (n : Node String) : Option Issue := n.asRule?.bind c.issue?

theorem issueOf?_eq_some_iff {n : Node String} :
    c.issueOf? n = some i ↔ ∃ r, n = .rule r ∧ c.Faults r i := by
  cases n with
  | rule r => simp [issueOf?, Node.asRule?, issue?_eq_some_iff_faults]
  | group j k cs => simp [issueOf?, Node.asRule?]

/-- The issues of a row of sites. -/
def issuesIn (c : FilterConfig) (ss : List (Site String)) : List Issue :=
  ss.filterMap fun s => c.issueOf? s.node

/-- The issues of a subtree on its own. -/
def issuesOf (c : FilterConfig) : Node String → List Issue
  | .rule r => (c.issue? r).toList
  | .group i k cs => c.issues ⟨i, k, cs⟩

/-- Issues do not depend on where a node stands. -/
theorem issuesIn_eq (c : FilterConfig) (ss : List (Site String)) :
    c.issuesIn ss = (ss.map Site.node).filterMap c.issueOf? := by
  rw [List.filterMap_map]
  rfl

theorem issuesIn_append (c : FilterConfig) (ss ss' : List (Site String)) :
    c.issuesIn (ss ++ ss') = c.issuesIn ss ++ c.issuesIn ss' := List.filterMap_append

/-- The issues of a tree are those of its sites. -/
theorem issuesIn_sites (c : FilterConfig) (t : Tree) : c.issuesIn t.toNode.sites = c.issues t := by
  rw [issuesIn_eq, Node.map_node_sites, issues, Group.rules, List.filterMap_filterMap]
  rfl

/-- The issues of a subtree are those of its outline. -/
theorem issuesIn_outline (c : FilterConfig) (n : Node String) : c.issuesIn n.outline = c.issuesOf n := by
  have hbare : ∀ m : Node String, c.issueOf? m.bare = c.issueOf? m := fun m => by cases m <;> rfl
  have hsites : c.issuesIn n.outline = c.issuesIn n.sites := by
    rw [issuesIn_eq, Node.map_node_outline, List.filterMap_map, issuesIn_eq, Node.map_node_sites]
    exact List.filterMap_congr fun m _ => hbare m
  rw [hsites]
  cases n with
  | rule r => cases h : c.issue? r <;> simp [issuesIn, Node.sites, issueOf?, Node.asRule?, issuesOf, h]
  | group i k cs => exact c.issuesIn_sites ⟨i, k, cs⟩

/-- With one child more there are its issues more, in one stretch and at its place. -/
theorem issues_of_graft {t u : Tree} {n : Node String} (c : FilterConfig)
    (g : n.Graft t.toNode u.toNode) : ∃ l r : List (Site String),
      u.toNode.outline = l ++ n.outline.map (Site.beneath g.place) ++ r ∧
      c.issues u = c.issuesIn l ++ c.issuesOf n ++ c.issuesIn r ∧
      c.issues t = c.issuesIn l ++ c.issuesIn r := by
  obtain ⟨l, r, hu, ht⟩ := g.outline
  have htree : ∀ t : Tree, c.issues t = c.issuesIn t.toNode.outline := fun t =>
    (c.issuesIn_outline t.toNode).symm
  refine ⟨l, r, hu, ?_, ?_⟩
  · rw [htree, hu, issuesIn_append, issuesIn_append, ← issuesIn_outline c n,
      issuesIn_eq c (n.outline.map _), Site.map_node_beneath, ← issuesIn_eq]
  · rw [htree, ht, issuesIn_eq, Site.map_node_closedUp, ← issuesIn_eq, issuesIn_append]

/-! ### Trees and stores -/

/-- **The issues of a tree go one by one with the rules that something is wrong with, at whatever depth, in
the order of the ways to them, and each says what is wrong.  A store that gets a node has the issues of that
node more, in one stretch between those of the rules before it and those of the rules after it, and a store
that loses a node has just that stretch less.** -/
theorem issues_exact (c : FilterConfig) :
    (∀ t : Tree, ∃ ss : List (Site String), (ss.Pairwise fun s s' => s.path < s'.path) ∧
      (∀ s, s ∈ ss ↔ t.toNode.at? s.path = some s.node ∧ ∃ r i, s.node = .rule r ∧ c.Faults r i) ∧
      List.Forall₂ (fun s i => ∃ r, s.node = .rule r ∧ c.Faults r i) ss (c.issues t)) ∧
    (∀ (s s' : Store) (d : Node Unit) (p : Option String) (id : String),
      s.run (.adding d p) = (.added id, s') →
        ∃ (n : Node String) (place : List Nat) (l r : List (Site String)), n.eraseIds = d ∧ n.id = id ∧
          s'.tree.toNode.at? place = some n ∧
          s'.tree.toNode.outline = l ++ n.outline.map (Site.beneath place) ++ r ∧
          c.issues s'.tree = c.issuesIn l ++ c.issuesOf n ++ c.issuesIn r ∧
          c.issues s.tree = c.issuesIn l ++ c.issuesIn r) ∧
    ∀ (s s' : Store) (id : String) (kind : Option Kind) (n : Node String),
      s.run (.removing id kind) = (.removed (some n), s') →
        ∃ (place : List Nat) (l r : List (Site String)), s.tree.toNode.at? place = some n ∧
          s.tree.toNode.outline = l ++ n.outline.map (Site.beneath place) ++ r ∧
          c.issues s.tree = c.issuesIn l ++ c.issuesOf n ++ c.issuesIn r ∧
          c.issues s'.tree = c.issuesIn l ++ c.issuesIn r := by
  refine ⟨fun t => ?_, fun s s' d p id h => ?_, fun s s' id kind n h => ?_⟩
  · refine ⟨t.toNode.sites.filter fun s => (c.issueOf? s.node).isSome, t.toNode.pairwise_sites.filter _,
      fun s => ?_, ?_⟩
    · rw [List.mem_filter, Node.mem_sites_iff, Option.isSome_iff_exists]
      simp only [issueOf?_eq_some_iff]
      exact and_congr_right fun _ => exists_comm
    · rw [← issuesIn_sites]
      exact (forall₂_filter_filterMap (fun s : Site String => c.issueOf? s.node) _).imp
        fun _ _ => issueOf?_eq_some_iff.1
  · obtain ⟨-, he⟩ | ⟨path, g, t, hg, ht, he⟩ := s.add_cases d p
    · rw [Store.run_adding, he] at h
      cases h
    · rw [Store.run_adding, he] at h
      cases h
      have graft := Group.pushGraft (Group.at?_of_first? hg) ht
      obtain ⟨l, r, hout, hissues, hbefore⟩ := c.issues_of_graft graft
      exact ⟨_, graft.place, l, r, Node.eraseIds_assign d s.ids, rfl, graft.at?_place, hout, hissues,
        hbefore⟩
  · rw [Store.run_removing] at h
    obtain he | ⟨m, t, -, hm, he⟩ := s.remove_cases id kind
    · rw [he] at h
      cases h
    · rw [he] at h
      cases h
      obtain ⟨g, -⟩ := Group.graft_of_remove? hm
      obtain ⟨l, r, hout, hissues, hafter⟩ := c.issues_of_graft g
      exact ⟨g.place, l, r, g.at?_place, hout, hissues, hafter⟩

/-- A field that is configured twice, first with operators of its own, and one whose component is in the
table. -/
def twiceConfig : FilterConfig where
  fields := [{ field := "abv", label := "Strength", component := Component.number, operators := some ["gt"] },
    { field := "abv", label := "Strength", component := Component.number },
    { field := "name", label := "Name", component := Component.text }]
  operators := some [(Component.text, ["contains"])]

/-- A store in which something is wrong with each of three rules, the second of them in a group. -/
def strayStore : Store :=
  .ofTree ⟨fun n => ["a", "b", "c"].getD n "", 0⟩ ⟨"root", .and,
    [.rule ⟨"p", "abv", "eq", .nat 5, Component.number, none⟩,
      .group "g" .or [.rule ⟨"q", "color", "eq", .null, Component.text, none⟩],
      .rule ⟨"r", "name", "eq", .null, Component.text, none⟩]⟩

/-- A group with a rule that its field does not allow and one that it allows. -/
def strayDraft : Node Unit :=
  .group () .or [.rule (Rule.draft "abv" "lt" Component.number), .rule (Rule.draft "abv" "gt" Component.number)]

/-- The store with this group in its group. -/
def strayStoreGrown : Store := (strayStore.run (.adding strayDraft (some "g"))).2

/-- The issue that the draft brings comes after that of the rule in the group, and both go with the group. -/
theorem issues_exact_strayStore :
    (strayStore.run (.adding strayDraft (some "g")) = (.added "a", strayStoreGrown) ∧
      ∃ n l r, n.id = "a" ∧
        twiceConfig.issues strayStoreGrown.tree =
          twiceConfig.issuesIn l ++ twiceConfig.issuesOf n ++ twiceConfig.issuesIn r ∧
        twiceConfig.issues strayStore.tree = twiceConfig.issuesIn l ++ twiceConfig.issuesIn r) ∧
    (∃ n s' l r, strayStoreGrown.run (.removing "g" none) = (.removed (some n), s') ∧ n.id = "g" ∧
        twiceConfig.issues strayStoreGrown.tree =
          twiceConfig.issuesIn l ++ twiceConfig.issuesOf n ++ twiceConfig.issuesIn r ∧
        twiceConfig.issues s'.tree = twiceConfig.issuesIn l ++ twiceConfig.issuesIn r) ∧
    twiceConfig.issues strayStoreGrown.tree =
      [.operatorNotAllowed "p" "abv" "eq", .unknownField "q" "color", .operatorNotAllowed "b" "abv" "lt",
        .operatorNotAllowed "r" "name" "eq"] := by
  have hadd : strayStore.run (.adding strayDraft (some "g")) = (.added "a", strayStoreGrown) := rfl
  have hremove : ∃ n s', n.id = "g" ∧
      strayStoreGrown.run (.removing "g" none) = (.removed (some n), s') := ⟨_, _, rfl, rfl⟩
  obtain ⟨m, s', hid, hremove⟩ := hremove
  refine ⟨⟨hadd, ?_⟩, ?_, by decide⟩
  · obtain ⟨n, place, l, r, -, hn, -, -, hgrown, hbefore⟩ :=
      (issues_exact twiceConfig).2.1 _ _ _ _ _ hadd
    exact ⟨n, l, r, hn, hgrown, hbefore⟩
  · obtain ⟨place, l, r, -, -, hwith, hwithout⟩ := (issues_exact twiceConfig).2.2 _ _ _ _ _ hremove
    exact ⟨m, s', l, r, hremove, hid, hwith, hwithout⟩

end FilterConfig

end Sieve
