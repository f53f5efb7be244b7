import Sieve.Filter.Walk

/-!
# Places in a tree

The way to a node is the list of the places of the children to go through.

* `Node.sites`: the nodes of a tree in the order of a walk, each with the way to it;
* `Node.walk_subset_walk`: what is below a node of a walk belongs to the walk;
* `Node.at?`: the node at the end of a way; `Node.at?_of_mem_sites` says that the sites tell it;
* `Node.mem_sites_iff`, `Node.pairwise_sites`: every way to a node is that of one site, and the sites come
  in the order of the ways, number by number.  So no node is met twice, however often its id is repeated;
* `Node.bare`: what a node is of its own, without what is below it;
* `Node.replaceAt`: a tree with another node at the end of a way.  At the end of that way stands the
  other node (`Node.at?_replaceAt`), and at the end of every way that does not go there stands of its
  own what stood there before (`Node.bare_at?_replaceAt`).
-/

namespace Sieve

/-- A node of a tree with the way to it: the places of the children to go through. -/
structure Site (ι : Type) where
  path : List Nat
  node : Node ι

variable {ι : Type}

/-- A group is told by the node that it is. -/
theorem Group.toNode_injective : Function.Injective (Group.toNode (ι := ι)) := by
  rintro ⟨i, c, cs⟩ ⟨j, d, ds⟩ h
  cases h
  rfl

/-- A site below the child at a place. -/
def Site.below (k : Nat) (s : Site ι) : Site ι := ⟨k :: s.path, s.node⟩

mutual

/-- The nodes of a tree with the ways to them, each before those below it and from left to right. -/
def Node.sites : Node ι → List (Site ι)
  | .rule r => [⟨[], .rule r⟩]
  | .group i c cs => ⟨[], .group i c cs⟩ :: Node.sitesFrom 0 cs

/-- The sites below children, the first of which stands at a place. -/
def Node.sitesFrom (k : Nat) : List (Node ι) → List (Site ι)
  | [] => []
  | n :: ns => (Node.sites n).map (Site.below k) ++ Node.sitesFrom (k + 1) ns

end

mutual

/-- The sites are the nodes of a walk. -/
theorem Node.map_node_sites : ∀ n : Node ι, n.sites.map Site.node = n.walk
  | .rule r => rfl
  | .group i c cs => by
    rw [sites, List.map_cons, walk, Node.map_node_sitesFrom 0 cs]

theorem Node.map_node_sitesFrom : ∀ (k : Nat) (ns : List (Node ι)),
    (Node.sitesFrom k ns).map Site.node = Node.walkAll ns
  | _, [] => rfl
  | k, n :: ns => by
    have hbelow : (n.sites.map (Site.below k)).map Site.node = n.sites.map Site.node := by
      rw [List.map_map]
      rfl
    rw [sitesFrom, List.map_append, hbelow, Node.map_node_sites n,
      Node.map_node_sitesFrom (k + 1) ns, walkAll]

end

mutual

/-- What is below a node of a walk belongs to the walk. -/
theorem Node.walk_subset_walk : ∀ {n m : Node ι}, m ∈ n.walk → m.walk ⊆ n.walk
  | .rule r, m, h => by
    cases List.mem_singleton.1 h
    exact List.Subset.refl _
  | .group i c cs, m, h => by
    rcases List.mem_cons.1 h with rfl | h
    · exact List.Subset.refl _
    · exact List.subset_cons_of_subset _ (Node.walk_subset_walkAll h)

theorem Node.walk_subset_walkAll : ∀ {ns : List (Node ι)} {m : Node ι}, m ∈ walkAll ns →
    m.walk ⊆ walkAll ns
  | [], _, h => by cases h
  | n :: ns, m, h => by
    rcases List.mem_append.1 h with h | h
    · exact List.subset_append_of_subset_left _ (Node.walk_subset_walk h)
    · exact List.subset_append_of_subset_right _ (Node.walk_subset_walkAll h)

end

theorem Node.self_mem_walk (n : Node ι) : n ∈ n.walk := by
  cases n <;> exact List.mem_cons_self

/-- The node of a site is one of the walk. -/
theorem Node.node_mem_walk {n : Node ι} {s : Site ι} (h : s ∈ n.sites) : s.node ∈ n.walk :=
  n.map_node_sites ▸ List.mem_map_of_mem h

namespace Node

/-! ### Going a way -/

/-- The node at the end of a way. -/
def at? : List Nat → Node ι → Option (Node ι)
  | [], n => some n
  | _ :: _, rule _ => none
  | k :: path, group _ _ cs => cs[k]?.bind (at? path)

@[simp] theorem at?_nil (n : Node ι) : n.at? [] = some n := by
  cases n <;> rfl

@[simp] theorem at?_rule_cons (r : Rule ι) (k : Nat) (path : List Nat) :
    (rule r).at? (k :: path) = none := rfl

@[simp] theorem at?_group_cons (i : ι) (c : Combinator) (cs : List (Node ι)) (k : Nat)
    (path : List Nat) : (group i c cs).at? (k :: path) = cs[k]?.bind (at? path) := rfl

/-- A way is gone in two parts. -/
theorem at?_append (n : Node ι) (path further : List Nat) :
    n.at? (path ++ further) = (n.at? path).bind (at? further) := by
  induction path generalizing n with
  | nil => rw [List.nil_append, at?_nil, Option.bind_some]
  | cons k path ih =>
    cases n with
    | rule r => rfl
    | group i c cs =>
      rw [List.cons_append, at?_group_cons, at?_group_cons, Option.bind_assoc]
      congr 1
      funext n
      exact ih n

mutual

/-- A site is the node at the end of its way. -/
theorem at?_of_mem_sites : ∀ {n : Node ι} {s : Site ι}, s ∈ n.sites → n.at? s.path = some s.node
  | .rule r, s, h => by
    cases List.mem_singleton.1 h
    rfl
  | .group i c cs, s, h => by
    rcases List.mem_cons.1 h with rfl | h
    · rfl
    · obtain ⟨k, path, hs, hk⟩ := at?_of_mem_sitesFrom h
      rw [hs, at?_group_cons, ← hk, Nat.zero_add]

theorem at?_of_mem_sitesFrom : ∀ {j : Nat} {ns : List (Node ι)} {s : Site ι}, s ∈ sitesFrom j ns →
    ∃ k path, s.path = (j + k) :: path ∧ ns[k]?.bind (at? path) = some s.node
  | _, [], _, h => by cases h
  | j, n :: ns, s, h => by
    rcases List.mem_append.1 h with h | h
    · obtain ⟨s, hs, rfl⟩ := List.mem_map.1 h
      exact ⟨0, s.path, rfl, at?_of_mem_sites hs⟩
    · obtain ⟨k, path, hs, hk⟩ := at?_of_mem_sitesFrom h
      refine ⟨k + 1, path, ?_, hk⟩
      rw [hs]
      congr 1
      omega

end

/-! ### Another node at the end of a way -/

/-- What a node is of its own, without what is below it. -/
def bare : Node ι → Node ι
  | rule r => rule r
  | group i c _ => group i c []

/-- A tree with another node at the end of a way. -/
def replaceAt : List Nat → Node ι → Node ι → Node ι
  | [], _, m => m
  | _ :: _, rule r, _ => rule r
  | k :: path, group i c cs, m => group i c (cs.modify k fun d => replaceAt path d m)

@[simp] theorem replaceAt_nil (n m : Node ι) : n.replaceAt [] m = m := by
  cases n <;> rfl

@[simp] theorem replaceAt_group_cons (i : ι) (c : Combinator) (cs : List (Node ι)) (k : Nat)
    (path : List Nat) (m : Node ι) : (group i c cs).replaceAt (k :: path) m =
      group i c (cs.modify k (·.replaceAt path m)) := rfl

/-- What can be gone to has a child at the first place of the way. -/
theorem at?_cons_eq_some {n m : Node ι} {k : Nat} {path : List Nat}
    (h : n.at? (k :: path) = some m) : ∃ i c cs d, n = group i c cs ∧ cs[k]? = some d ∧
      d.at? path = some m := by
  cases n with
  | rule r => cases h
  | group i c cs =>
    obtain ⟨d, hd, hm⟩ := Option.bind_eq_some_iff.1 h
    exact ⟨i, c, cs, d, rfl, hd, hm⟩

/-- At the end of the way stands the other node. -/
theorem at?_replaceAt {n old : Node ι} {path : List Nat} (h : n.at? path = some old) (m : Node ι) :
    (n.replaceAt path m).at? path = some m := by
  induction path generalizing n with
  | nil => rw [replaceAt_nil, at?_nil]
  | cons k path ih =>
    obtain ⟨i, c, cs, d, rfl, hd, hold⟩ := at?_cons_eq_some h
    rw [replaceAt_group_cons, at?_group_cons, List.getElem?_modify_eq, hd]
    exact ih hold

/-- Whatever is not at the end of the way or further on stays as it is of its own. -/
theorem bare_at?_replaceAt {n old : Node ι} {path : List Nat} (h : n.at? path = some old)
    (m : Node ι) {other : List Nat} (ho : ¬ path <+: other) :
    ((n.replaceAt path m).at? other).map bare = (n.at? other).map bare := by
  induction path generalizing n other with
  | nil => exact absurd List.nil_prefix ho
  | cons k path ih =>
    obtain ⟨i, c, cs, d, rfl, hd, hold⟩ := at?_cons_eq_some h
    rw [replaceAt_group_cons]
    cases other with
    | nil => simp [bare]
    | cons l other =>
      rw [at?_group_cons, at?_group_cons]
      by_cases hl : k = l
      · -- the two ways go through the same child
        subst hl
        have hother : ¬ path <+: other := fun hp => ho (List.cons_prefix_cons.2 ⟨rfl, hp⟩)
        rw [List.getElem?_modify_eq, hd]
        exact ih hold hother
      · rw [List.getElem?_modify_ne _ _ hl]

/-! ### The order of the sites -/

theorem mem_sitesFrom {j k : Nat} {ns : List (Node ι)} {n : Node ι} {s : Site ι}
    (hn : ns[k]? = some n) (hs : s ∈ n.sites) : s.below (j + k) ∈ sitesFrom j ns := by
  induction ns generalizing j k with
  | nil => cases hn
  | cons m ns ih =>
    rw [sitesFrom, List.mem_append]
    cases k with
    | zero =>
      cases hn
      exact .inl (List.mem_map_of_mem hs)
    | succ k =>
      have hrest := ih (j := j + 1) hn
      rw [Nat.add_right_comm] at hrest
      exact .inr hrest

/-- The node at the end of a way is that of a site. -/
theorem mem_sites_of_at? {n m : Node ι} {path : List Nat} (h : n.at? path = some m) :
    ⟨path, m⟩ ∈ n.sites := by
  induction path generalizing n with
  | nil =>
    cases (at?_nil n).symm.trans h
    cases m <;> exact List.mem_cons_self
  | cons k path ih =>
    obtain ⟨i, c, cs, d, rfl, hd, hm⟩ := at?_cons_eq_some h
    have hbelow := mem_sitesFrom (j := 0) hd (ih hm)
    rw [Nat.zero_add] at hbelow
    exact List.mem_cons_of_mem _ hbelow

/-- The sites are the nodes that can be gone to, with the ways to them. -/
theorem mem_sites_iff {n : Node ι} {s : Site ι} : s ∈ n.sites ↔ n.at? s.path = some s.node :=
  ⟨at?_of_mem_sites, mem_sites_of_at?⟩

mutual

/-- The sites come in the order of the ways. -/
theorem pairwise_sites : ∀ n : Node ι, n.sites.Pairwise fun s s' => s.path < s'.path
  | .rule r => List.pairwise_singleton _ _
  | .group i c cs => by
    refine List.pairwise_cons.2 ⟨fun s hs => ?_, pairwise_sitesFrom 0 cs⟩
    obtain ⟨k, path, hpath, -⟩ := at?_of_mem_sitesFrom hs
    rw [hpath]
    exact List.nil_lt_cons _ _

theorem pairwise_sitesFrom : ∀ (k : Nat) (ns : List (Node ι)),
    (sitesFrom k ns).Pairwise fun s s' => s.path < s'.path
  | _, [] => List.Pairwise.nil
  | k, n :: ns => by
    refine List.pairwise_append.2 ⟨?_, pairwise_sitesFrom (k + 1) ns, fun s hs s' hs' => ?_⟩
    · -- below one child the ways go on in the order that they have there
      exact List.pairwise_map.2 ((pairwise_sites n).imp fun h => List.cons_lt_cons_iff.2 (.inr ⟨rfl, h⟩))
    · obtain ⟨s, -, rfl⟩ := List.mem_map.1 hs
      obtain ⟨j, path, hpath, -⟩ := at?_of_mem_sitesFrom hs'
      rw [hpath]
      exact List.cons_lt_cons_iff.2 (.inl (by omega))

end

end Node

end Sieve
