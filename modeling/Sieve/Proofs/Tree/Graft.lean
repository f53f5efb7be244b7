import Sieve.Proofs.Tree.Ids

/-!
# One child more

A tree grows and shrinks by one child of one group at a time.

* `Node.eq_replaceAt_iff`, `Node.replaceAt_replaceAt`: putting a node where it stands changes nothing, and
  putting another one there does; of two nodes put in one place the second stays;
* `Node.Graft`: a tree is another one with one more child in some group;
* `Group.pushGraft`: a group that gets a last child makes such a tree;
* `Group.removal?`: the first site below the root that a removal asks for; `Group.graft_of_remove?` says
  that this is what is taken out, and that the tree before was the tree after with this child more.
-/

namespace Sieve

variable {ι : Type}

namespace Node

/-- A node put where it stands. -/
theorem replaceAt_self {n old : Node ι} {path : List Nat} (h : n.at? path = some old) :
    n.replaceAt path old = n := by
  induction path generalizing n with
  | nil =>
    cases (at?_nil n).symm.trans h
    exact replaceAt_nil _ _
  | cons k path ih =>
    obtain ⟨i, c, cs, d, rfl, hd, hold⟩ := at?_cons_eq_some h
    obtain ⟨before, after, rfl, -, hmodify⟩ := modify_of_getElem? hd
    rw [replaceAt_group_cons, hmodify, ih hold]

/-- A tree in which a node gives way is the same just if the node gives way to itself. -/
theorem eq_replaceAt_iff {n old m : Node ι} {path : List Nat} (h : n.at? path = some old) :
    n = n.replaceAt path m ↔ old = m := by
  constructor
  · intro he
    have hat := at?_replaceAt h m
    rw [← he, h] at hat
    exact Option.some.inj hat
  · rintro rfl
    exact (replaceAt_self h).symm

/-- Of two nodes that are put in one place the second stays. -/
theorem replaceAt_replaceAt (n a b : Node ι) (path : List Nat) :
    (n.replaceAt path a).replaceAt path b = n.replaceAt path b := by
  induction path generalizing n with
  | nil => rw [replaceAt_nil, replaceAt_nil]
  | cons k path ih =>
    cases n with
    | rule r => rfl
    | group i c cs =>
      have hsecond : ((replaceAt path · b) ∘ (replaceAt path · a) : Node ι → Node ι) =
          (replaceAt path · b) := funext ih
      rw [replaceAt_group_cons, replaceAt_group_cons, replaceAt_group_cons, List.modify_modify_eq,
        hsecond]

/-- A tree `n` is the tree `o` with one more node `m` among the children of a group. -/
structure Graft (m o n : Node ι) where
  path : List Nat
  id : ι
  combinator : Combinator
  before : List (Node ι)
  after : List (Node ι)
  without : o.at? path = some (.group id combinator (before ++ after))
  grown : n = o.replaceAt path (.group id combinator (before ++ m :: after))

namespace Graft

variable {m o n : Node ι}

/-- The way to the node. -/
def place (g : Graft m o n) : List Nat := g.path ++ [g.before.length]

/-- The group with the node. -/
theorem withNode (g : Graft m o n) :
    n.at? g.path = some (.group g.id g.combinator (g.before ++ m :: g.after)) := by
  obtain ⟨path, i, c, before, after, hwithout, rfl⟩ := g
  exact at?_replaceAt hwithout _

/-- Taking the node out again. -/
theorem cut (g : Graft m o n) :
    o = n.replaceAt g.path (.group g.id g.combinator (g.before ++ g.after)) := by
  obtain ⟨path, i, c, before, after, hwithout, rfl⟩ := g
  rw [replaceAt_replaceAt]
  exact (replaceAt_self hwithout).symm

/-- The node stands at the end of its way. -/
theorem at?_place (g : Graft m o n) : n.at? g.place = some m := by
  rw [place, at?_append, g.withNode]
  simp

/-- Which node is one more child is told by the way to it, and so is the tree without it. -/
theorem eq_of_place_eq {m' o' : Node ι} (g : Graft m o n) (g' : Graft m' o' n)
    (h : g.place = g'.place) : o = o' := by
  obtain ⟨hpath, hlast⟩ := List.append_inj' h rfl
  have hlength : g.before.length = g'.before.length := List.singleton_inj.1 hlast
  have hgroup := g.withNode
  rw [hpath, g'.withNode, Option.some.injEq, Node.group.injEq] at hgroup
  obtain ⟨hid, hc, hchildren⟩ := hgroup
  obtain ⟨hbefore, hrest⟩ := List.append_inj hchildren hlength.symm
  rw [g.cut, g'.cut, hpath, hid, hc, hbefore, (List.cons.inj hrest).2]

/-- One more child of the group itself. -/
def here (m : Node ι) (i : ι) (c : Combinator) (before after : List (Node ι)) :
    Graft m (.group i c (before ++ after)) (.group i c (before ++ m :: after)) :=
  ⟨[], i, c, before, after, rfl, rfl⟩

/-- One more child somewhere below a child. -/
def below (g : Graft m o n) (i : ι) (c : Combinator) (before after : List (Node ι)) :
    Graft m (.group i c (before ++ o :: after)) (.group i c (before ++ n :: after)) where
  path := before.length :: g.path
  id := g.id
  combinator := g.combinator
  before := g.before
  after := g.after
  without := by
    rw [at?_group_cons, List.getElem?_append_right (Nat.le_refl _), Nat.sub_self]
    exact g.without
  grown := by
    have hchild : (before ++ o :: after).modify before.length
        (replaceAt g.path · (.group g.id g.combinator (g.before ++ m :: g.after))) =
          before ++ n :: after := by
      rw [List.modify_eq_take_cons_drop (by simp), List.take_left' rfl]
      simp [← g.grown]
    rw [replaceAt_group_cons, hchild]

end Graft

/-! ### Removals -/

/-- The sites below a node. -/
def sitesBelow : Node ι → List (Site ι)
  | rule _ => []
  | group _ _ cs => sitesFrom 0 cs

theorem sites_eq_cons (n : Node ι) : n.sites = ⟨[], n⟩ :: n.sitesBelow := by
  cases n <;> rfl

/-- Whether a site is one that a removal asks for. -/
def accepts (id : String) (kind : Option Kind) (s : Site String) : Bool :=
  s.node.id = id ∧ s.node.isOf kind

variable {id : String} {kind : Option Kind}

/-- A site that a removal asks for has the id. -/
theorem id_of_find?_accepts {ss : List (Site String)} {s : Site String}
    (h : ss.find? (accepts id kind) = some s) : s.node.id = id := by
  have haccepts : s.node.id = id ∧ s.node.isOf kind = true := by simpa [accepts] using List.find?_some h
  exact haccepts.1

/-- Looking below a child of a group. -/
theorem find?_accepts_below (k : Nat) (ss : List (Site String)) :
    (ss.map (Site.below k)).find? (accepts id kind) =
      (ss.find? (accepts id kind)).map (Site.below k) :=
  List.find?_map

mutual

/-- Where nothing is taken out, nothing is asked for. -/
theorem find?_of_removeBelow?_eq_none : ∀ {n : Node String}, n.removeBelow? id kind = none →
    n.sitesBelow.find? (accepts id kind) = none
  | .rule _, _ => rfl
  | .group _ _ _, h => find?_of_removeFrom?_eq_none (Option.map_eq_none_iff.1 h) 0

theorem find?_of_removeFrom?_eq_none : ∀ {ns : List (Node String)}, removeFrom? id kind ns = none →
    ∀ k, (sitesFrom k ns).find? (accepts id kind) = none
  | [], _, _ => rfl
  | n :: ns, h, k => by
    rw [removeFrom?] at h
    split at h
    next => cases h
    next hn =>
      split at h
      next => cases h
      next hbelow =>
        have hself : accepts id kind ⟨[], n⟩ = false := decide_eq_false hn
        have hchild := find?_of_removeBelow?_eq_none hbelow
        have hrest := find?_of_removeFrom?_eq_none (Option.map_eq_none_iff.1 h) (k + 1)
        rw [sitesFrom, List.find?_append, find?_accepts_below, sites_eq_cons, List.find?_cons, hself,
          hchild, hrest]
        rfl

end

mutual

/-- What is taken out from below a node is the first below it that is asked for, and was one child
more. -/
theorem graft_of_removeBelow? : ∀ {n m o : Node String}, n.removeBelow? id kind = some (m, o) →
    ∃ g : Graft m o n, n.sitesBelow.find? (accepts id kind) = some ⟨g.place, m⟩
  | .rule _, _, _, h => by cases h
  | .group i c cs, m, o, h => by
    obtain ⟨⟨m', ds⟩, hds, he⟩ := Option.map_eq_some_iff.1 h
    cases he
    exact graft_of_removeFrom? hds i c []

theorem graft_of_removeFrom? : ∀ {ns os : List (Node String)} {m : Node String},
    removeFrom? id kind ns = some (m, os) →
      ∀ (i : String) (c : Combinator) (before : List (Node String)),
        ∃ g : Graft m (.group i c (before ++ os)) (.group i c (before ++ ns)),
          (sitesFrom before.length ns).find? (accepts id kind) = some ⟨g.place, m⟩
  | [], _, _, h, _, _, _ => by cases h
  | n :: ns, os, m, h, i, c, before => by
    rw [removeFrom?] at h
    rw [sitesFrom, List.find?_append, find?_accepts_below, sites_eq_cons, List.find?_cons]
    split at h
    next hn =>
      cases h
      have hself : accepts id kind ⟨[], n⟩ = true := decide_eq_true hn
      rw [hself]
      exact ⟨.here n i c before ns, rfl⟩
    next hn =>
      have hself : accepts id kind ⟨[], n⟩ = false := decide_eq_false hn
      rw [hself]
      split at h
      next m' n' hbelow =>
        cases h
        obtain ⟨g, hg⟩ := graft_of_removeBelow? hbelow
        rw [hg]
        exact ⟨g.below i c before ns, rfl⟩
      next hbelow =>
        obtain ⟨⟨m', ds⟩, hds, he⟩ := Option.map_eq_some_iff.1 h
        cases he
        -- the child that stays is one more of those before
        have hrest := graft_of_removeFrom? hds i c (before ++ [n])
        rw [List.append_assoc, List.append_assoc, List.length_append] at hrest
        rw [find?_of_removeBelow?_eq_none hbelow]
        exact hrest

end

end Node

namespace Group

variable {t u : Tree}

/-- Where a group gets a node as its last child, the tree gets one child more. -/
def pushGraft {g : Tree} {path : List Nat} {n : Node String}
    (h : t.toNode.at? path = some g.toNode)
    (hu : u.toNode = t.toNode.replaceAt path (g.push n).toNode) : n.Graft t.toNode u.toNode where
  path := path
  id := g.id
  combinator := g.combinator
  before := g.children
  after := []
  without := by rw [List.append_nil]; exact h
  grown := hu

/-- The site that a removal takes out: the first below the root that has the id and an accepted kind. -/
def removal? (id : String) (kind : Option Kind) (t : Tree) : Option (Site String) :=
  t.toNode.sitesBelow.find? (Node.accepts id kind)

/-- A removal takes out the site that it is to take out, which was one child more. -/
theorem graft_of_remove? {id : String} {kind : Option Kind} {n : Node String}
    (h : t.remove? id kind = some (n, u)) :
    ∃ g : n.Graft u.toNode t.toNode, t.removal? id kind = some ⟨g.place, n⟩ := by
  obtain ⟨⟨m, cs⟩, hcs, he⟩ := Option.map_eq_some_iff.1 h
  cases he
  exact Node.graft_of_removeFrom? hcs t.id t.combinator []

/-- A removal that has nothing to take out takes nothing out. -/
theorem remove?_of_removal?_eq_none {id : String} {kind : Option Kind} (h : t.removal? id kind = none) :
    t.remove? id kind = none := by
  cases hr : t.remove? id kind with
  | none => rfl
  | some q =>
    obtain ⟨g, hg⟩ := graft_of_remove? hr
    rw [h] at hg
    cases hg

/-- A removal that has something to take out takes it out. -/
theorem remove?_of_removal? {id : String} {kind : Option Kind} {site : Site String}
    (h : t.removal? id kind = some site) : ∃ (u : Tree) (g : site.node.Graft u.toNode t.toNode),
      t.remove? id kind = some (site.node, u) ∧ site.path = g.place := by
  cases hr : t.remove? id kind with
  | none =>
    have hnone := Node.find?_of_removeFrom?_eq_none (Option.map_eq_none_iff.1 hr) 0
    exact absurd (hnone.symm.trans h) (by simp)
  | some q =>
    obtain ⟨n, u⟩ := q
    obtain ⟨g, hg⟩ := graft_of_remove? hr
    cases hg.symm.trans h
    exact ⟨u, g, rfl, rfl⟩

/-- What a removal is to take out has the id. -/
theorem id_of_removal? {id : String} {kind : Option Kind} {site : Site String}
    (h : t.removal? id kind = some site) : site.node.id = id := Node.id_of_find?_accepts h

/-- What a removal is to take out is one of the sites of the tree. -/
theorem mem_sites_of_removal? {id : String} {kind : Option Kind} {site : Site String}
    (h : t.removal? id kind = some site) : site ∈ t.toNode.sites := by
  rw [Node.sites_eq_cons]
  exact List.mem_cons_of_mem _ (List.mem_of_find?_eq_some h)

/-- The tree contains the id of what a removal is to take out. -/
theorem contains_of_removal? {id : String} {kind : Option Kind} {site : Site String}
    (h : t.removal? id kind = some site) : t.contains id = true := by
  rw [contains_iff, ← id_of_removal? h]
  exact List.mem_map_of_mem (Node.node_mem_walk (mem_sites_of_removal? h))

end Group

end Sieve
