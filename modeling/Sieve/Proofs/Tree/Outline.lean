import Sieve.Proofs.Tree.FirstMatch
import Sieve.Proofs.Tree.Graft

/-!
# The outline of a tree

The outline tells of each node, in the order of the walk, the way to it and what it is of its own.

* `Node.outline_replaceAt`: another node at the end of a way brings its outline there, and leaves what
  stands before and after it;
* `Node.ids_replaceAt`: so do its ids;
* `closedUp`: where a way leads once a child of a group has been taken out;
* `Node.Graft.outline`: one child more is one stretch more of the outline, and the later children of the
  group give way to it; `Group.ids_remove?` says what that means for the ids;
* `Node.find?_of_replaceAt`: the first node that passes a test stays the first when it gives way to another
  one that passes it; `Group.first?_of_replaceAt` is the case of an id;
* `Group.removal?_of_graft`: one child more with a new id is what a removal of that id takes out.
-/

namespace Sieve

variable {ι : Type}

/-- A site with what its node is of its own. -/
def Site.own (s : Site ι) : Site ι := ⟨s.path, s.node.bare⟩

/-- A site below the end of a way. -/
def Site.beneath (path : List Nat) (s : Site ι) : Site ι := ⟨path ++ s.path, s.node⟩

@[simp] theorem Site.beneath_nil : Site.beneath (ι := ι) [] = id := rfl

@[simp] theorem Site.beneath_beneath (path further : List Nat) (s : Site ι) :
    (s.beneath further).beneath path = s.beneath (path ++ further) := by
  simp [beneath]

@[simp] theorem Site.map_node_beneath (path : List Nat) (ss : List (Site ι)) :
    (ss.map (Site.beneath path)).map Site.node = ss.map Site.node := List.map_map

namespace Node

/-- The nodes of a tree in the order of the walk, each with the way to it and without what is below it. -/
def outline (n : Node ι) : List (Site ι) := n.sites.map Site.own

/-- The outline of a row of children, the first of which stands at a place. -/
def outlineFrom (k : Nat) (ns : List (Node ι)) : List (Site ι) := (sitesFrom k ns).map Site.own

@[simp] theorem outline_rule (r : Rule ι) : (rule r).outline = [⟨[], rule r⟩] := rfl

@[simp] theorem outline_group (i : ι) (c : Combinator) (cs : List (Node ι)) :
    (group i c cs).outline = ⟨[], group i c []⟩ :: outlineFrom 0 cs := rfl

@[simp] theorem outlineFrom_nil (k : Nat) : outlineFrom k ([] : List (Node ι)) = [] := rfl

@[simp] theorem outlineFrom_cons (k : Nat) (n : Node ι) (ns : List (Node ι)) :
    outlineFrom k (n :: ns) = n.outline.map (Site.beneath [k]) ++ outlineFrom (k + 1) ns := by
  simp only [outlineFrom, outline, sitesFrom, List.map_append, List.map_map]
  rfl

theorem outlineFrom_append (k : Nat) (ms ns : List (Node ι)) :
    outlineFrom k (ms ++ ns) = outlineFrom k ms ++ outlineFrom (k + ms.length) ns := by
  induction ms generalizing k with
  | nil => rfl
  | cons m ms ih =>
    rw [List.cons_append, outlineFrom_cons, outlineFrom_cons, ih, List.append_assoc, List.length_cons,
      Nat.add_right_comm, Nat.add_assoc]

/-- An outline begins with the node itself. -/
theorem outline_eq_cons (n : Node ι) : ∃ rest, n.outline = ⟨[], n.bare⟩ :: rest := by
  cases n with
  | rule r => exact ⟨[], rfl⟩
  | group i c cs => exact ⟨outlineFrom 0 cs, rfl⟩

/-- The nodes of an outline are those of the walk, without what is below them. -/
theorem map_node_outline (n : Node ι) : n.outline.map Site.node = n.walk.map bare := by
  rw [← map_node_sites, outline, List.map_map, List.map_map]
  rfl

@[simp] theorem id_bare (n : Node ι) : n.bare.id = n.id := by
  cases n <;> rfl

/-- The ids of an outline are those of the tree. -/
theorem map_id_outline (n : Node ι) : n.outline.map (·.node.id) = n.ids := by
  have hid : (fun s : Site ι => s.node.id) = id ∘ Site.node := rfl
  rw [hid, ← List.map_map, map_node_outline, List.map_map, ids]
  exact List.map_congr_left fun m _ => m.id_bare

theorem map_id_beneath (path : List Nat) (n : Node ι) :
    (n.outline.map (Site.beneath path)).map (·.node.id) = n.ids := by
  rw [← map_id_outline, List.map_map]
  rfl

/-- A way in a row of children goes through one of them. -/
theorem path_of_mem_outlineFrom {k : Nat} {ns : List (Node ι)} {s : Site ι} (h : s ∈ outlineFrom k ns) :
    ∃ j way, s.path = (k + j) :: way ∧ j < ns.length := by
  obtain ⟨s, hs, rfl⟩ := List.mem_map.1 h
  obtain ⟨j, way, hpath, hat⟩ := at?_of_mem_sitesFrom hs
  obtain ⟨n, hn, -⟩ := Option.bind_eq_some_iff.1 hat
  exact ⟨j, way, hpath, (List.getElem?_eq_some_iff.1 hn).1⟩

/-- Another node at the end of a way brings its outline there and leaves what stands before and after
it. -/
theorem outline_replaceAt {n old : Node ι} {path : List Nat} (h : n.at? path = some old) :
    ∃ l r : List (Site ι), (∀ s ∈ l ++ r, ¬ path <+: s.path) ∧
      n.outline = l ++ old.outline.map (Site.beneath path) ++ r ∧
      ∀ m : Node ι, (n.replaceAt path m).outline = l ++ m.outline.map (Site.beneath path) ++ r := by
  induction path generalizing n with
  | nil =>
    cases (at?_nil n).symm.trans h
    exact ⟨[], [], by simp, by simp, fun m => by simp⟩
  | cons k path ih =>
    obtain ⟨i, c, cs, d, rfl, hd, hold⟩ := at?_cons_eq_some h
    obtain ⟨l, r, hapart, hdo, hmo⟩ := ih hold
    obtain ⟨before, after, rfl, rfl, hmodify⟩ := modify_of_getElem? hd
    -- the outline of the child is that of the tree below the first place of the way
    have hchild : ∀ e o : Node ι, e.outline = l ++ o.outline.map (Site.beneath path) ++ r →
        (group i c (before ++ e :: after)).outline =
          (⟨[], group i c []⟩ :: outlineFrom 0 before ++ l.map (Site.beneath [before.length])) ++
            o.outline.map (Site.beneath (before.length :: path)) ++
            (r.map (Site.beneath [before.length]) ++ outlineFrom (before.length + 1) after) := by
      intro e o he
      simp [outlineFrom_append, he, Function.comp_def]
    have hrow : ∀ {k : Nat} {ns : List (Node ι)} {s : Site ι}, s ∈ outlineFrom k ns →
        before.length < k ∨ k + ns.length ≤ before.length → ¬ (before.length :: path) <+: s.path := by
      intro k ns s hs hk hp
      obtain ⟨j, way, hway, hj⟩ := path_of_mem_outlineFrom hs
      rw [hway, List.cons_prefix_cons] at hp
      omega
    have hsame : ∀ s ∈ l ++ r, ¬ (before.length :: path) <+: (s.beneath [before.length]).path :=
      fun s hs hp => hapart s hs (List.cons_prefix_cons.1 hp).2
    refine ⟨_, _, fun s hs => ?_, hchild d old hdo, fun m => ?_⟩
    · simp only [List.mem_append, List.mem_cons, List.mem_map] at hs
      rcases hs with ((rfl | hs) | ⟨s, hs, rfl⟩) | ⟨s, hs, rfl⟩ | hs
      · simp
      · exact hrow hs (.inr (by omega))
      · exact hsame s (List.mem_append_left _ hs)
      · exact hsame s (List.mem_append_right _ hs)
      · exact hrow hs (.inl (Nat.lt_succ_self _))
    · rw [replaceAt_group_cons, hmodify]
      exact hchild _ m (hmo m)

/-- Another node at the end of a way brings its ids there and leaves those before and after. -/
theorem ids_replaceAt {n old : Node ι} {path : List Nat} (h : n.at? path = some old) :
    ∃ l r : List ι, n.ids = l ++ old.ids ++ r ∧
      ∀ m : Node ι, (n.replaceAt path m).ids = l ++ m.ids ++ r := by
  obtain ⟨l, r, -, hn, hreplaced⟩ := outline_replaceAt h
  refine ⟨l.map (·.node.id), r.map (·.node.id), ?_, fun m => ?_⟩
  · rw [← map_id_outline, hn, List.map_append, List.map_append, map_id_beneath]
  · rw [← map_id_outline, hreplaced, List.map_append, List.map_append, map_id_beneath]

end Node

/-! ### One child more -/

/-- Where a way leads once a child of the group at the end of `path` has been taken out, the one at place
`k`: the later children of the group have moved up by one place. -/
def closedUp (path : List Nat) (k : Nat) (way : List Nat) : List Nat :=
  match way.drop path.length with
  | [] => way
  | j :: rest => if path <+: way ∧ k < j then path ++ (j - 1) :: rest else way

theorem closedUp_of_not_prefix {path way : List Nat} (h : ¬ path <+: way) (k : Nat) :
    closedUp path k way = way := by
  unfold closedUp
  split
  next => rfl
  next => exact if_neg fun hp => h hp.1

@[simp] theorem closedUp_self (path : List Nat) (k : Nat) : closedUp path k path = path := by
  simp [closedUp]

theorem closedUp_append_cons (path rest : List Nat) (k j : Nat) :
    closedUp path k (path ++ j :: rest) = if k < j then path ++ (j - 1) :: rest else path ++ j :: rest := by
  simp [closedUp]

/-- A site once a child of a group has been taken out. -/
def Site.closedUp (path : List Nat) (k : Nat) (s : Site ι) : Site ι :=
  ⟨Sieve.closedUp path k s.path, s.node⟩

@[simp] theorem Site.map_node_closedUp (path : List Nat) (k : Nat) (ss : List (Site ι)) :
    (ss.map (Site.closedUp path k)).map Site.node = ss.map Site.node := List.map_map

namespace Node

/-- The children after the one that has been taken out move up by one place. -/
theorem map_closedUp_outlineFrom (path : List Nat) {j k : Nat} (h : j ≤ k) (ns : List (Node ι)) :
    (outlineFrom (k + 1) ns).map (fun s => (s.beneath path).closedUp path j) =
      (outlineFrom k ns).map (Site.beneath path) := by
  induction ns generalizing k with
  | nil => rfl
  | cons n ns ih =>
    have hfirst : ∀ s : Site ι, ((s.beneath [k + 1]).beneath path).closedUp path j =
        (s.beneath [k]).beneath path := by
      intro s
      simp [Site.closedUp, Site.beneath, closedUp_append_cons, Nat.lt_succ_of_le h]
    simp only [outlineFrom_cons, List.map_append, List.map_map, Function.comp_def, hfirst,
      ih (Nat.le_succ_of_le h)]

/-- The children before the one that is taken out stay where they are. -/
theorem map_closedUp_outlineFrom_of_le (path : List Nat) {j k : Nat} {ns : List (Node ι)}
    (h : k + ns.length ≤ j) :
    (outlineFrom k ns).map (fun s => (s.beneath path).closedUp path j) =
      (outlineFrom k ns).map (Site.beneath path) := by
  refine List.map_congr_left fun s hs => ?_
  obtain ⟨i, way, hway, hi⟩ := path_of_mem_outlineFrom hs
  have hlt : ¬ j < k + i := by omega
  simp [Site.closedUp, Site.beneath, hway, closedUp_append_cons, hlt]

/-- With one child more the outline has one stretch more.  Without it the later children of the group
are one place up, and all else stands where it stood. -/
theorem Graft.outline {m o n : Node ι} (g : Graft m o n) : ∃ l r : List (Site ι),
    n.outline = l ++ m.outline.map (Site.beneath g.place) ++ r ∧
      o.outline = (l ++ r).map (Site.closedUp g.path g.before.length) := by
  obtain ⟨l, r, hapart, ho, hn⟩ := outline_replaceAt g.without
  have hstay : ∀ ss : List (Site ι), (∀ s ∈ ss, ¬ g.path <+: s.path) →
      ss.map (Site.closedUp g.path g.before.length) = ss := fun ss hss =>
    (List.map_congr_left fun s hs => by rw [Site.closedUp, closedUp_of_not_prefix (hss s hs)]; rfl).trans
      (List.map_id ss)
  have hgroup : ((⟨[], .group g.id g.combinator []⟩ : Site ι).beneath g.path).closedUp g.path
      g.before.length = (⟨[], .group g.id g.combinator []⟩ : Site ι).beneath g.path := by
    simp [Site.closedUp, Site.beneath]
  refine ⟨l ++ Site.beneath g.path ⟨[], .group g.id g.combinator []⟩ ::
    (outlineFrom 0 g.before).map (Site.beneath g.path),
    (outlineFrom (g.before.length + 1) g.after).map (Site.beneath g.path) ++ r, ?_, ?_⟩
  · have hgrown := hn (.group g.id g.combinator (g.before ++ m :: g.after))
    rw [← g.grown] at hgrown
    rw [hgrown]
    simp [outlineFrom_append, Graft.place, Function.comp_def]
  · have hbefore := map_closedUp_outlineFrom_of_le g.path (Nat.le_of_eq (Nat.zero_add g.before.length))
    have hafter := map_closedUp_outlineFrom g.path (Nat.le_refl g.before.length) g.after
    rw [ho, outline_group, outlineFrom_append]
    simp only [List.map_append, List.map_cons, List.map_map, Function.comp_def, hgroup, hbefore, hafter,
      hstay l fun s hs => hapart s (List.mem_append_left r hs),
      hstay r fun s hs => hapart s (List.mem_append_right l hs), Nat.zero_add, List.append_assoc,
      List.cons_append]

/-- With one child more there are its ids more, somewhere after the root. -/
theorem Graft.ids_eq {m o n : Node ι} (g : Graft m o n) : ∃ l r : List ι,
    n.ids = n.id :: l ++ m.ids ++ r ∧ o.ids = n.id :: l ++ r := by
  obtain ⟨l, r, hn, ho⟩ := g.outline
  obtain ⟨rest, hroot⟩ := n.outline_eq_cons
  cases l with
  | nil =>
    -- the child stands below the root, so its stretch is not the first
    obtain ⟨rest', hm⟩ := m.outline_eq_cons
    simp [hroot, hm, Site.beneath, Graft.place] at hn
  | cons s l =>
    have hs : s.node.id = n.id := by
      rw [hroot, List.cons_append, List.cons_append, List.cons.injEq] at hn
      rw [← hn.1, id_bare]
    refine ⟨l.map (·.node.id), r.map (·.node.id), ?_, ?_⟩
    · rw [← map_id_outline n, hn, List.map_append, List.map_append, map_id_beneath, List.map_cons, hs]
    · rw [← map_id_outline o, ho, List.map_map, List.map_append]
      exact congrArg (· :: _) hs

end Node

theorem Group.ids_remove? {id : String} {kind : Option Kind} {t u : Tree} {n : Node String}
    (h : t.remove? id kind = some (n, u)) : ∃ l r : List String,
      t.ids = t.id :: l ++ n.ids ++ r ∧ u.ids = t.id :: l ++ r := by
  obtain ⟨g, -⟩ := graft_of_remove? h
  exact g.ids_eq

/-! ### The first node that passes a test -/

namespace Node

variable {p : Node ι → Bool} {n m old : Node ι} {path : List Nat}

/-- Where a test looks at what a node is of its own, the first node that passes it is the first of the
outline. -/
theorem map_own_find? (hp : ∀ n, p n.bare = p n) (n : Node ι) :
    (n.sites.find? (p ·.node)).map Site.own = n.outline.find? (p ·.node) := by
  have hown : ((fun s : Site ι => p s.node) ∘ Site.own) = fun s => p s.node :=
    funext fun s => hp s.node
  rw [outline, List.find?_map, hown]

/-- A node is the first that passes a test if no node before it in the outline passes. -/
theorem find?_of_outline (hp : ∀ n, p n.bare = p n) {l r : List (Site ι)}
    (h : n.outline = l ++ m.outline.map (Site.beneath path) ++ r) (hat : n.at? path = some m)
    (hl : ∀ s ∈ l, p s.node = false) (hm : p m = true) :
    n.sites.find? (p ·.node) = some ⟨path, m⟩ := by
  obtain ⟨rest, hrest⟩ := m.outline_eq_cons
  have hnone : l.find? (p ·.node) = none := List.find?_eq_none.2 fun s hs => by simp [hl s hs]
  have hfind := map_own_find? hp n
  rw [h, hrest, List.append_assoc, List.find?_append, hnone] at hfind
  simp only [List.map_cons, List.cons_append, List.find?_cons, Site.beneath, hp, hm, Option.none_or,
    List.append_nil] at hfind
  obtain ⟨s, hs, hown⟩ := Option.map_eq_some_iff.1 hfind
  obtain ⟨hpath, -⟩ := Site.mk.inj hown
  have hnode := at?_of_mem_sites (List.mem_of_find?_eq_some hs)
  rw [hpath, hat] at hnode
  rw [hs, Option.some.inj hnode, ← hpath]

/-- Where the first node that passes a test gives way to another one that passes it, that one is now the
first. -/
theorem find?_of_replaceAt (hp : ∀ n, p n.bare = p n)
    (h : n.sites.find? (p ·.node) = some ⟨path, old⟩) (hm : p m = true) :
    (n.replaceAt path m).sites.find? (p ·.node) = some ⟨path, m⟩ := by
  have hat : n.at? path = some old := at?_of_mem_sites (List.mem_of_find?_eq_some h)
  obtain ⟨l, r, hapart, hn, hreplaced⟩ := outline_replaceAt hat
  refine find?_of_outline hp (hreplaced m) (at?_replaceAt hat m) (fun s hs => ?_) hm
  cases hfind : l.find? (p ·.node) with
  | none => simpa using List.find?_eq_none.1 hfind s hs
  | some s' =>
    -- then the first node that passes would not stand at the end of the way
    have hfirst := map_own_find? hp n
    rw [h, hn, List.append_assoc, List.find?_append, hfind] at hfirst
    have hs' : Site.own ⟨path, old⟩ = s' := Option.some.inj hfirst
    have hmem := List.mem_append_left r (List.mem_of_find?_eq_some hfind)
    exact absurd (hs' ▸ List.prefix_refl path) (hapart s' hmem)

end Node

/-! ### The first node of an id -/

namespace Group

variable {t u : Tree} {id : String} {path : List Nat} {m : Node String}

/-- Where the first node of an id gives way to another one of the id, that one is now the first. -/
theorem first?_of_replaceAt {old : Node String} (h : t.first? id = some ⟨path, old⟩)
    (hu : u.toNode = t.toNode.replaceAt path m) (hm : m.id = id) : u.first? id = some ⟨path, m⟩ := by
  rw [first?, hu]
  exact Node.find?_of_replaceAt (p := fun n => decide (n.id = id)) (fun n => by rw [Node.id_bare]) h
    (decide_eq_true hm)

/-- A removal of nodes of any kind takes out the first node of the id, if that is not the root. -/
theorem removal?_none (h : t.id ≠ id) : t.removal? id none = t.first? id := by
  have haccepts : Node.accepts id none = fun s => decide (s.node.id = id) := by
    funext s
    simp [Node.accepts, Node.isOf]
  rw [removal?, first?, haccepts, Node.sites_eq_cons, List.find?_cons_of_neg]
  simp [toNode, Node.id, h]

/-- One child more with an id that is nowhere else is what a removal of that id takes out. -/
theorem removal?_of_graft (g : m.Graft t.toNode u.toNode) (h : m.id ∉ t.ids) :
    u.removal? m.id none = some ⟨g.place, m⟩ := by
  obtain ⟨l, r, hu, ht⟩ := g.outline
  have hids : t.ids = (l ++ r).map (·.node.id) := by
    rw [← ids_toNode, ← Node.map_id_outline, ht, List.map_map]
    rfl
  have hfirst : u.first? m.id = some ⟨g.place, m⟩ := by
    refine Node.find?_of_outline (p := fun n => decide (n.id = m.id)) (fun n => by rw [Node.id_bare]) hu
      g.at?_place (fun s hs => decide_eq_false fun hid => h ?_) (decide_eq_true rfl)
    rw [hids, ← hid]
    exact List.mem_map_of_mem (List.mem_append_left r hs)
  have hroot : u.id ≠ m.id := by
    intro hid
    rw [← hid, first?_root] at hfirst
    simp [Node.Graft.place] at hfirst
  rw [removal?_none hroot, hfirst]

end Group

end Sieve
