import Sieve.Filter.Draft
import Sieve.Proofs.Tree.Sites

/-!
# The ids of a tree

The ids of a tree in the order of the walk, and what becomes of them.

* `Node.find?_eq_find?_walk`: looking for an id finds the first node of the walk that has it, so in a
  tree without repeated ids every node is found where it stands (`Group.find?_of_nodup`);
* `modify_of_getElem?`: a change at one place of a row leaves what stands before and after it;
* `IdSupply.row`: the next ids of a supply; `Node.assign_spec` says that a draft gets one id of the row
  for each node, in the order of the walk, and `Group.rules_assign` that its rules stay what they are.
-/

namespace Sieve

variable {ι κ : Type}

/-- The ids of a node and of everything below it, in the order of the walk. -/
def Node.ids (n : Node ι) : List ι := n.walk.map Node.id

/-- The ids of a tree, in the order of the walk. -/
def Group.ids (g : Group ι) : List ι := g.walk.map Node.id

namespace Node

@[simp] theorem ids_rule (r : Rule ι) : (rule r).ids = [r.id] := rfl

@[simp] theorem ids_group (i : ι) (c : Combinator) (cs : List (Node ι)) :
    (group i c cs).ids = i :: cs.flatMap ids := by
  simp only [ids, walk, List.map_cons, walkAll_eq_flatMap, List.map_flatMap]
  rfl

theorem ids_ne_nil (n : Node ι) : n.ids ≠ [] := by
  cases n <;> simp

end Node

@[simp] theorem Group.ids_mk (i : ι) (c : Combinator) (cs : List (Node ι)) :
    (Group.mk i c cs).ids = i :: cs.flatMap Node.ids := Node.ids_group i c cs

theorem Group.ids_eq (g : Group ι) : g.ids = g.id :: g.children.flatMap Node.ids :=
  Group.ids_mk g.id g.combinator g.children

@[simp] theorem Group.ids_toNode (g : Group ι) : g.toNode.ids = g.ids := rfl

/-! ### Looking for an id -/

mutual

/-- Looking for an id finds the first node of the walk that has it. -/
theorem Node.find?_eq_find?_walk (id : String) :
    ∀ n : Node String, n.find? id = n.walk.find? (·.id = id)
  | .rule r => by
    by_cases h : r.id = id <;> simp [find?, walk, Node.id, h]
  | .group i c cs => by
    by_cases h : i = id
    · simp [find?, walk, Node.id, h]
    · simpa [find?, walk, Node.id, h] using Node.findAll?_eq_find?_walk id cs

theorem Node.findAll?_eq_find?_walk (id : String) :
    ∀ ns : List (Node String), findAll? id ns = (ns.flatMap walk).find? (·.id = id)
  | [] => rfl
  | n :: ns => by
    rw [findAll?, Node.find?_eq_find?_walk id n, Node.findAll?_eq_find?_walk id ns,
      List.flatMap_cons, List.find?_append]
    cases n.walk.find? (·.id = id) <;> rfl

end

theorem Group.find?_eq_find?_walk (id : String) (g : Tree) :
    g.find? id = g.walk.find? (·.id = id) :=
  Node.find?_eq_find?_walk id g.toNode

/-- A tree contains the ids of its nodes. -/
theorem Group.contains_iff {id : String} {g : Tree} : g.contains id = true ↔ id ∈ g.ids := by
  rw [Group.contains, Group.find?_eq_find?_walk, List.find?_isSome, Group.ids, List.mem_map]
  simp

/-- Where no mark is repeated, the first item of a mark is the only one. -/
theorem find?_of_nodup_map {α β : Type} [DecidableEq β] {mark : α → β} {as : List α}
    (h : (as.map mark).Nodup) {a : α} (ha : a ∈ as) : as.find? (mark · = mark a) = some a := by
  induction as with
  | nil => cases ha
  | cons b bs ih =>
    obtain ⟨hb, hbs⟩ := List.nodup_cons.1 h
    rcases List.mem_cons.1 ha with rfl | ha
    · simp
    · have hne : mark b ≠ mark a := fun he => hb (he ▸ List.mem_map_of_mem ha)
      simpa [hne] using ih hbs ha

/-- In a tree without repeated ids every node is found where it stands. -/
theorem Group.find?_of_nodup {g : Tree} (h : g.ids.Nodup) {n : Node String} (hn : n ∈ g.walk) :
    g.find? n.id = some n := by
  rw [Group.find?_eq_find?_walk]
  exact find?_of_nodup_map h hn

/-! ### Changes at one place -/

/-- Where a row has an item at a place, a change there leaves what stands before and after it. -/
theorem modify_of_getElem? {α : Type} {as : List α} {k : Nat} {a : α} (h : as[k]? = some a) :
    ∃ before after, as = before ++ a :: after ∧ before.length = k ∧
      ∀ f : α → α, as.modify k f = before ++ f a :: after := by
  obtain ⟨hk, rfl⟩ := List.getElem?_eq_some_iff.1 h
  refine ⟨as.take k, as.drop (k + 1), ?_, List.length_take_of_le (Nat.le_of_lt hk),
    fun f => List.modify_eq_take_cons_drop hk⟩
  rw [List.getElem_cons_drop hk, List.take_append_drop]

@[simp] theorem Group.ids_push (g : Group ι) (n : Node ι) : (g.push n).ids = g.ids ++ n.ids := by
  simp [Group.ids_eq, Group.push]

@[simp] theorem GroupPatch.ids_apply (p : GroupPatch) (g : Group ι) : (p.apply g).ids = g.ids := by
  simp [Group.ids_eq, GroupPatch.apply]

/-! ### New ids -/

namespace IdSupply

/-- The next `k` ids. -/
def row (s : IdSupply) (k : Nat) : List String := (List.range' s.used k).map s.issue

/-- The supply after `k` ids have been given away. -/
def after (s : IdSupply) (k : Nat) : IdSupply := { s with used := s.used + k }

@[simp] theorem after_zero (s : IdSupply) : s.after 0 = s := rfl

@[simp] theorem row_zero (s : IdSupply) : s.row 0 = [] := rfl

theorem after_add (s : IdSupply) (j k : Nat) : s.after (j + k) = (s.after j).after k := by
  simp [after, Nat.add_assoc]

theorem row_add (s : IdSupply) (j k : Nat) : s.row (j + k) = s.row j ++ (s.after j).row k := by
  simp [row, after, ← List.range'_append_1]

end IdSupply

mutual

/-- A draft gets the next ids, one for each node in the order of the walk. -/
theorem Node.assign_spec : ∀ (n : Node Unit) (s : IdSupply),
    (n.assign s).1.ids = s.row n.walk.length ∧ (n.assign s).2 = s.after n.walk.length
  | .rule _, _ => ⟨rfl, rfl⟩
  | .group i c cs, s => by
    -- the group takes the next id before its children take theirs
    obtain ⟨hids, hs⟩ := Node.assignAll_spec cs (s.after 1)
    have hlen : (Node.group i c cs).walk.length = 1 + (cs.flatMap Node.walk).length := by
      simp [Node.walk, Nat.add_comm]
    rw [hlen, IdSupply.row_add, IdSupply.after_add, ← hids, ← hs]
    exact ⟨Node.ids_group _ _ _, rfl⟩

theorem Node.assignAll_spec : ∀ (ns : List (Node Unit)) (s : IdSupply),
    (Node.assignAll ns s).1.flatMap Node.ids = s.row (ns.flatMap Node.walk).length ∧
      (Node.assignAll ns s).2 = s.after (ns.flatMap Node.walk).length
  | [], _ => ⟨rfl, rfl⟩
  | n :: ns, s => by
    obtain ⟨hn, hs⟩ := Node.assign_spec n s
    obtain ⟨hns, hs'⟩ := Node.assignAll_spec ns (s.after n.walk.length)
    rw [List.flatMap_cons, List.length_append, IdSupply.row_add, IdSupply.after_add, ← hns, ← hs',
      ← hn, ← hs]
    exact ⟨rfl, rfl⟩

end

theorem Group.assign_spec (g : Group Unit) (s : IdSupply) :
    (g.assign s).1.ids = s.row g.nodeCount ∧ (g.assign s).2 = s.after g.nodeCount :=
  Node.assign_spec g.toNode s

/-! ### Rules without regard to ids -/

mutual

/-- Marks do not matter to a walk. -/
theorem Node.walk_mapIds (φ : ι → κ) : ∀ n : Node ι, (n.mapIds φ).walk = n.walk.map (Node.mapIds φ)
  | .rule _ => rfl
  | .group i c cs => congrArg (Node.group (φ i) c (mapIdsAll φ cs) :: ·) (Node.walkAll_mapIdsAll φ cs)

theorem Node.walkAll_mapIdsAll (φ : ι → κ) : ∀ ns : List (Node ι),
    walkAll (mapIdsAll φ ns) = (walkAll ns).map (Node.mapIds φ)
  | [] => rfl
  | n :: ns => by
    rw [mapIdsAll, walkAll, walkAll, List.map_append, Node.walk_mapIds φ n, Node.walkAll_mapIdsAll φ ns]

end

theorem Node.asRule?_mapIds (φ : ι → κ) (n : Node ι) :
    (n.mapIds φ).asRule? = n.asRule?.map (Rule.mapId φ) := by
  cases n <;> rfl

theorem Group.rules_mapIds (φ : ι → κ) (g : Group ι) :
    (g.mapIds φ).rules = g.rules.map (Rule.mapId φ) := by
  have hwalk : (g.mapIds φ).walk = g.walk.map (Node.mapIds φ) := Node.walk_mapIds φ g.toNode
  have hrule : Node.asRule? ∘ Node.mapIds φ = fun n => n.asRule?.map (Rule.mapId φ) :=
    funext (Node.asRule?_mapIds φ)
  rw [rules, hwalk, List.filterMap_map, hrule, rules, List.map_filterMap]

/-- The rules of a draft are those of the tree that it becomes. -/
theorem Group.rules_assign (g : Group Unit) (s : IdSupply) :
    (g.assign s).1.rules.map (Rule.mapId fun _ => ()) = g.rules := by
  rw [← rules_mapIds]
  congr 1
  exact congrArg (Group.mk () g.combinator) (Node.eraseIds_assignAll g.children _)

end Sieve
