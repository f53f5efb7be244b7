import Sieve.Proofs.Tree.Ids
import Sieve.Proofs.Tree.Sites

/-!
# The first node that matches

Looking for an id, changing a group and changing a rule are separate walks.  They end at the same
place.

* `Group.first?`: the first site of the walk that has an id; `Group.find?_eq_first?` says that this is
  what looking for the id finds;
* `Node.modifyFirst?`: a tree with the first node changed that a change applies to, which is the first
  such site (`Node.modifyFirst?_of_find?`), if there is one (`Node.modifyFirst?_eq_none_iff`).  Groups and
  rules of an id are changed in this way (`Node.modifyGroup?_eq`, `Node.modifyRule?_eq`);
* `Group.firstOf?`: the first site of the walk that has a kind and an id, which is the first site of the
  id if that has the kind (`Group.firstOf?_of_first?`);
* `Group.modifyGroup?_of_firstOf?`, `Group.modifyRule?_of_firstOf?`: it is the first group of an id that is
  changed, and likewise for rules.
-/

namespace Sieve

variable {ι : Type}

/-- The first site of the walk that has an id. -/
def Group.first? (id : String) (t : Tree) : Option (Site String) :=
  t.toNode.sites.find? (·.node.id = id)

theorem Group.find?_eq_first? (id : String) (t : Tree) : t.find? id = (t.first? id).map Site.node := by
  have hwalk : t.walk = t.toNode.sites.map Site.node := (Node.map_node_sites t.toNode).symm
  rw [Group.find?_eq_find?_walk, hwalk, List.find?_map]
  rfl

theorem Group.at?_of_first? {id : String} {t : Tree} {s : Site String} (h : t.first? id = some s) :
    t.toNode.at? s.path = some s.node :=
  Node.at?_of_mem_sites (List.mem_of_find?_eq_some h)

theorem Group.id_of_first? {id : String} {t : Tree} {s : Site String} (h : t.first? id = some s) :
    s.node.id = id := by
  simpa using List.find?_some h

/-- Nothing stands before the root. -/
theorem Group.first?_root (t : Tree) : t.first? t.id = some ⟨[], t.toNode⟩ := by
  simp [first?, toNode, Node.sites, Node.id]

theorem Group.findGroup?_of_first? {id : String} {t : Tree} {path : List Nat} {g : Tree}
    (h : t.first? id = some ⟨path, g.toNode⟩) : t.findGroup? id = some g := by
  rw [findGroup?, find?_eq_first?, h]
  rfl

theorem Group.findRule?_of_first? {id : String} {t : Tree} {path : List Nat} {r : Rule String}
    (h : t.first? id = some ⟨path, .rule r⟩) : t.findRule? id = some r := by
  rw [findRule?, find?_eq_first?, h]
  rfl

/-- A group that is found is the first site of its id. -/
theorem Group.first?_of_findGroup? {id : String} {t g : Tree} (h : t.findGroup? id = some g) :
    ∃ path, t.first? id = some ⟨path, g.toNode⟩ := by
  obtain ⟨n, hn, hg⟩ := Option.bind_eq_some_iff.1 h
  rw [find?_eq_first?] at hn
  obtain ⟨s, hs, rfl⟩ := Option.map_eq_some_iff.1 hn
  obtain ⟨path, n⟩ := s
  cases n with
  | rule r => cases hg
  | group i c cs =>
    cases hg
    exact ⟨path, hs⟩

/-- A rule that is found is the first site of its id. -/
theorem Group.first?_of_findRule? {id : String} {t : Tree} {r : Rule String}
    (h : t.findRule? id = some r) : ∃ path, t.first? id = some ⟨path, .rule r⟩ := by
  obtain ⟨n, hn, hr⟩ := Option.bind_eq_some_iff.1 h
  rw [find?_eq_first?] at hn
  obtain ⟨s, hs, rfl⟩ := Option.map_eq_some_iff.1 hn
  obtain ⟨path, n⟩ := s
  cases n with
  | rule r' =>
    cases hr
    exact ⟨path, hs⟩
  | group i c cs => cases hr

/-- What is found first among more things and is one of fewer is found first among the fewer. -/
theorem find?_of_imp {α : Type} {p q : α → Bool} {as : List α} {a : α} (h : as.find? p = some a)
    (hq : q a = true) (himp : ∀ b, q b = true → p b = true) : as.find? q = some a := by
  obtain ⟨-, before, after, rfl, hbefore⟩ := List.find?_eq_some_iff_append.1 h
  refine List.find?_eq_some_iff_append.2 ⟨hq, before, after, rfl, fun b hb => ?_⟩
  have hb := hbefore b hb
  cases hqb : q b with
  | false => rfl
  | true => simp [himp b hqb] at hb

/-- The first site of the walk that has a kind and an id. -/
def Group.firstOf? (kind : Kind) (id : String) (t : Tree) : Option (Site String) :=
  t.toNode.sites.find? fun s => s.node.kind = kind ∧ s.node.id = id

/-- The first site of an id is the first one of its kind. -/
theorem Group.firstOf?_of_first? {id : String} {t : Tree} {s : Site String} (h : t.first? id = some s) :
    t.firstOf? s.node.kind id = some s :=
  find?_of_imp h (by simp [id_of_first? h]) fun s' hs' => by simp [(of_decide_eq_true hs').2]

/-! ### Changing the first node that a change applies to -/

namespace Node

mutual

/-- A tree with the first node changed that a change applies to. -/
def modifyFirst? (f : Node ι → Option (Node ι)) : Node ι → Option (Node ι)
  | rule r => f (rule r)
  | group i c cs => match f (group i c cs) with
    | some m => some m
    | none => (modifyFirstAll? f cs).map (group i c)

/-- A row of trees with the first node changed that a change applies to. -/
def modifyFirstAll? (f : Node ι → Option (Node ι)) : List (Node ι) → Option (List (Node ι))
  | [] => none
  | n :: ns => match modifyFirst? f n with
    | some m => some (m :: ns)
    | none => (modifyFirstAll? f ns).map (n :: ·)

end

variable {f : Node ι → Option (Node ι)}

mutual

theorem modifyFirst?_eq_none : ∀ {n : Node ι}, n.sites.find? (fun s => (f s.node).isSome) = none →
    n.modifyFirst? f = none
  | .rule r, h => by
    simpa [sites, modifyFirst?] using h
  | .group i c cs, h => by
    rw [sites, List.find?_cons] at h
    cases hf : f (group i c cs) with
    | some m => simp [hf] at h
    | none =>
      simp only [hf, Option.isSome_none] at h
      rw [modifyFirst?, hf]
      simpa using modifyFirstAll?_eq_none h

theorem modifyFirstAll?_eq_none : ∀ {k : Nat} {ns : List (Node ι)},
    (sitesFrom k ns).find? (fun s => (f s.node).isSome) = none → modifyFirstAll? f ns = none
  | _, [], _ => rfl
  | k, n :: ns, h => by
    rw [sitesFrom, List.find?_append, Option.or_eq_none_iff, List.find?_map,
      Option.map_eq_none_iff] at h
    rw [modifyFirstAll?, modifyFirst?_eq_none h.1, modifyFirstAll?_eq_none h.2]
    rfl

end

mutual

/-- The first site that a change applies to is the place where it changes a tree. -/
theorem modifyFirst?_of_find? : ∀ {n : Node ι} {s : Site ι} {m : Node ι},
    n.sites.find? (fun s => (f s.node).isSome) = some s → f s.node = some m →
      n.modifyFirst? f = some (n.replaceAt s.path m)
  | .rule r, s, m, h, hm => by
    cases List.mem_singleton.1 (List.mem_of_find?_eq_some h)
    exact hm
  | .group i c cs, s, m, h, hm => by
    rw [sites, List.find?_cons] at h
    cases hf : f (group i c cs) with
    | some m' =>
      simp only [hf, Option.isSome_some, Option.some.injEq] at h
      subst h
      rw [modifyFirst?, hf, replaceAt_nil]
      exact hf.symm.trans hm
    | none =>
      simp only [hf, Option.isSome_none] at h
      obtain ⟨k, path, hs, hcs⟩ := modifyFirstAll?_of_find? h hm
      rw [modifyFirst?, hf, hs, hcs, Nat.zero_add]
      rfl

theorem modifyFirstAll?_of_find? : ∀ {j : Nat} {ns : List (Node ι)} {s : Site ι} {m : Node ι},
    (sitesFrom j ns).find? (fun s => (f s.node).isSome) = some s → f s.node = some m →
      ∃ k path, s.path = (j + k) :: path ∧
        modifyFirstAll? f ns = some (ns.modify k (·.replaceAt path m))
  | _, [], _, _, h, _ => by cases h
  | j, n :: ns, s, m, h, hm => by
    rw [sitesFrom, List.find?_append, List.find?_map] at h
    rw [modifyFirstAll?]
    cases hn : n.sites.find? (fun s => (f s.node).isSome) with
    | some s' =>
      have hs : s = s'.below j := by
        have : some (s'.below j) = some s := by
          simpa [Function.comp_def, Site.below, hn] using h
        exact (Option.some.inj this).symm
      subst hs
      exact ⟨0, s'.path, rfl, by rw [modifyFirst?_of_find? hn hm]; rfl⟩
    | none =>
      have hns : (sitesFrom (j + 1) ns).find? (fun s => (f s.node).isSome) = some s := by
        simpa [Function.comp_def, Site.below, hn] using h
      obtain ⟨k, path, hs, hmod⟩ := modifyFirstAll?_of_find? hns hm
      refine ⟨k + 1, path, ?_, ?_⟩
      · rw [hs]
        congr 1
        omega
      · rw [modifyFirst?_eq_none hn, hmod]
        rfl

end

/-- A change fails just if it applies to no node. -/
theorem modifyFirst?_eq_none_iff {n : Node ι} : n.modifyFirst? f = none ↔ ∀ m ∈ n.walk, f m = none := by
  rw [← map_node_sites, List.forall_mem_map]
  constructor
  · intro h s hs
    cases hfind : n.sites.find? (fun s => (f s.node).isSome) with
    | none => simpa using List.find?_eq_none.1 hfind s hs
    | some s' =>
      have happlies : (f s'.node).isSome = true := by simpa using List.find?_some hfind
      obtain ⟨m, hm⟩ := Option.isSome_iff_exists.1 happlies
      cases h.symm.trans (modifyFirst?_of_find? hfind hm)
  · intro h
    exact modifyFirst?_eq_none (List.find?_eq_none.2 fun s hs => by simp [h s hs])

/-! ### Groups and rules -/

/-- A change of the groups of an id. -/
def onGroup (id : String) (f : Tree → Tree) : Node String → Option (Node String)
  | rule _ => none
  | group i c cs => if i = id then some (f ⟨i, c, cs⟩).toNode else none

/-- A change of the rules of an id. -/
def onRule (id : String) (f : Rule String → Rule String) : Node String → Option (Node String)
  | rule r => if r.id = id then some (rule (f r)) else none
  | group _ _ _ => none

/-- The change of a group applies to the groups of the id. -/
theorem isSome_onGroup (id : String) (f : Tree → Tree) (n : Node String) :
    (onGroup id f n).isSome = decide (n.kind = .group ∧ n.id = id) := by
  cases n with
  | rule r => rfl
  | group i c cs => by_cases hi : i = id <;> simp [onGroup, kind, Node.id, hi]

/-- The change of a rule applies to the rules of the id. -/
theorem isSome_onRule (id : String) (f : Rule String → Rule String) (n : Node String) :
    (onRule id f n).isSome = decide (n.kind = .rule ∧ n.id = id) := by
  cases n with
  | rule r => by_cases hr : r.id = id <;> simp [onRule, kind, Node.id, hr]
  | group i c cs => rfl

mutual

theorem modifyGroup?_eq (id : String) (f : Tree → Tree) :
    ∀ n : Node String, n.modifyGroup? id f = n.modifyFirst? (onGroup id f)
  | .rule r => rfl
  | .group i c cs => by
    rw [modifyGroup?, modifyFirst?, onGroup, modifyGroupAll?_eq id f cs]
    split <;> rfl

theorem modifyGroupAll?_eq (id : String) (f : Tree → Tree) :
    ∀ ns : List (Node String), modifyGroupAll? id f ns = modifyFirstAll? (onGroup id f) ns
  | [] => rfl
  | n :: ns => by
    rw [modifyGroupAll?, modifyFirstAll?, modifyGroup?_eq id f n, modifyGroupAll?_eq id f ns]
    cases n.modifyFirst? (onGroup id f) <;> rfl

end

mutual

theorem modifyRule?_eq (id : String) (f : Rule String → Rule String) :
    ∀ n : Node String, n.modifyRule? id f = n.modifyFirst? (onRule id f)
  | .rule r => rfl
  | .group i c cs => by
    rw [modifyRule?, modifyFirst?, onRule, modifyRuleAll?_eq id f cs]

theorem modifyRuleAll?_eq (id : String) (f : Rule String → Rule String) :
    ∀ ns : List (Node String), modifyRuleAll? id f ns = modifyFirstAll? (onRule id f) ns
  | [] => rfl
  | n :: ns => by
    rw [modifyRuleAll?, modifyFirstAll?, modifyRule?_eq id f n, modifyRuleAll?_eq id f ns]
    cases n.modifyFirst? (onRule id f) <;> rfl

end

end Node

namespace Group

variable {id : String} {t : Tree} {path : List Nat}

/-- At the root the change of a tree is that of a node. -/
theorem map_toNode_modifyGroup? (id : String) (f : Tree → Tree) (t : Tree) :
    (t.modifyGroup? id f).map toNode = t.toNode.modifyFirst? (Node.onGroup id f) := by
  rw [← Node.modifyGroup?_eq, toNode, Node.modifyGroup?, modifyGroup?]
  by_cases hi : t.id = id
  · rw [if_pos hi, if_pos hi]
    rfl
  · rw [if_neg hi, if_neg hi, Option.map_map]
    rfl

theorem map_toNode_modifyRule? (id : String) (f : Rule String → Rule String) (t : Tree) :
    (t.modifyRule? id f).map toNode = t.toNode.modifyFirst? (Node.onRule id f) := by
  rw [← Node.modifyRule?_eq, toNode, Node.modifyRule?, modifyRule?, Option.map_map]
  rfl

theorem find?_onGroup (id : String) (f : Tree → Tree) (t : Tree) :
    t.toNode.sites.find? (fun s => (Node.onGroup id f s.node).isSome) = t.firstOf? .group id := by
  simp only [Node.isSome_onGroup, firstOf?]

theorem find?_onRule (id : String) (f : Rule String → Rule String) (t : Tree) :
    t.toNode.sites.find? (fun s => (Node.onRule id f s.node).isSome) = t.firstOf? .rule id := by
  simp only [Node.isSome_onRule, firstOf?]

theorem id_of_firstOf? {kind : Kind} {s : Site String} (h : t.firstOf? kind id = some s) :
    s.node.kind = kind ∧ s.node.id = id := by
  simpa using List.find?_some h

/-- The change of a group changes the first group of the id. -/
theorem modifyGroup?_of_firstOf? {g : Tree} (h : t.firstOf? .group id = some ⟨path, g.toNode⟩)
    (f : Tree → Tree) : ∃ u, t.modifyGroup? id f = some u ∧
      u.toNode = t.toNode.replaceAt path (f g).toNode := by
  have hid : g.id = id := (id_of_firstOf? h).2
  have hg : Node.onGroup id f g.toNode = some (f g).toNode := if_pos hid
  have hmod := Node.modifyFirst?_of_find? ((t.find?_onGroup id f).trans h) hg
  rw [← map_toNode_modifyGroup?] at hmod
  exact Option.map_eq_some_iff.1 hmod

/-- The change of a rule changes the first rule of the id. -/
theorem modifyRule?_of_firstOf? {r : Rule String} (h : t.firstOf? .rule id = some ⟨path, .rule r⟩)
    (f : Rule String → Rule String) : ∃ u, t.modifyRule? id f = some u ∧
      u.toNode = t.toNode.replaceAt path (.rule (f r)) := by
  have hid : r.id = id := (id_of_firstOf? h).2
  have hr : Node.onRule id f (.rule r) = some (.rule (f r)) := if_pos hid
  have hmod := Node.modifyFirst?_of_find? ((t.find?_onRule id f).trans h) hr
  rw [← map_toNode_modifyRule?] at hmod
  exact Option.map_eq_some_iff.1 hmod

/-- Where the first node of an id is a group, the change of a group changes it. -/
theorem modifyGroup?_of_first? {g : Tree} (h : t.first? id = some ⟨path, g.toNode⟩)
    (f : Tree → Tree) : ∃ u, t.modifyGroup? id f = some u ∧
      u.toNode = t.toNode.replaceAt path (f g).toNode :=
  modifyGroup?_of_firstOf? (firstOf?_of_first? h) f

/-- Where the first node of an id is a rule, the change of a rule changes it. -/
theorem modifyRule?_of_first? {r : Rule String} (h : t.first? id = some ⟨path, .rule r⟩)
    (f : Rule String → Rule String) : ∃ u, t.modifyRule? id f = some u ∧
      u.toNode = t.toNode.replaceAt path (.rule (f r)) :=
  modifyRule?_of_firstOf? (firstOf?_of_first? h) f

end Group

end Sieve
