import Sieve.Filter.Draft
import Sieve.Proofs.Tree.Equality
import Sieve.Proofs.Tree.Outline

/-!
# Edits of all nodes

An edit says of each node by itself whether it stays in its row and what becomes of it.

* `Edit`, `Node.edited`, `Group.edited`: an edit, and a tree all of whose nodes have been edited;
* `Edit.andThen`: two edits in one (`Node.edited_edited`).  Edits commute if of each id one of the two
  spares the nodes (`Edit.andThen_comm`);
* `Edit.ofRulePatch`, `Edit.ofGroupPatch`, `Edit.removal`: the edits of the nodes of one id;
* `Group.edited_of_first?`, `Group.edited_removal`: where no id is repeated, to edit all nodes is to
  change the first node of the id, or to take it out.
-/

namespace Sieve

/-- What becomes of each node by itself: whether it stays in its row, and how a rule or the combinator of
a group changes.  Ids and kinds do not change. -/
@[ext]
structure Edit where
  keeps : String → Kind → Bool := fun _ _ => true
  rule : Rule String → Rule String := id
  combinator : String → Combinator → Combinator := fun _ c => c
  id_rule : ∀ r, (rule r).id = r.id := by exact fun _ => rfl

mutual

/-- A node with itself and everything below it edited. -/
def Node.edited (e : Edit) : Node String → Node String
  | .rule r => .rule (e.rule r)
  | .group i c cs => .group i (e.combinator i c) (Node.editedAll e cs)

/-- The nodes of a row that stay, edited. -/
def Node.editedAll (e : Edit) : List (Node String) → List (Node String)
  | [] => []
  | n :: ns =>
    if e.keeps n.id n.kind then Node.edited e n :: Node.editedAll e ns else Node.editedAll e ns

end

/-- A tree with all its nodes edited.  The root stays. -/
def Group.edited (e : Edit) (t : Tree) : Tree :=
  ⟨t.id, e.combinator t.id t.combinator, Node.editedAll e t.children⟩

@[simp] theorem Group.toNode_edited (e : Edit) (t : Tree) :
    (t.edited e).toNode = t.toNode.edited e := rfl

namespace Node

variable {e : Edit}

@[simp] theorem edited_rule (r : Rule String) : (rule r).edited e = rule (e.rule r) := rfl

@[simp] theorem edited_group (i : String) (c : Combinator) (cs : List (Node String)) :
    (group i c cs).edited e = group i (e.combinator i c) (editedAll e cs) := rfl

@[simp] theorem id_edited (n : Node String) : (n.edited e).id = n.id := by
  cases n with
  | rule r => exact e.id_rule r
  | group i c cs => rfl

@[simp] theorem kind_edited (n : Node String) : (n.edited e).kind = n.kind := by
  cases n <;> rfl

theorem editedAll_cons_of_keeps {n : Node String} (h : e.keeps n.id n.kind = true)
    (ns : List (Node String)) : editedAll e (n :: ns) = n.edited e :: editedAll e ns := if_pos h

theorem editedAll_cons_of_not_keeps {n : Node String} (h : e.keeps n.id n.kind = false)
    (ns : List (Node String)) : editedAll e (n :: ns) = editedAll e ns := by
  rw [editedAll, h, if_neg Bool.false_ne_true]

theorem editedAll_append (ms ns : List (Node String)) :
    editedAll e (ms ++ ns) = editedAll e ms ++ editedAll e ns := by
  induction ms with
  | nil => rfl
  | cons m ms ih =>
    rw [List.cons_append, editedAll, editedAll, ih]
    split <;> rfl

mutual

/-- An edit brings no id, and keeps the order of those that stay. -/
theorem ids_edited_sublist (e : Edit) : ∀ n : Node String, (n.edited e).ids.Sublist n.ids
  | .rule r => by simp [e.id_rule r]
  | .group i c cs => by
    rw [edited_group, ids_group, ids_group]
    exact (ids_editedAll_sublist e cs).cons_cons i

theorem ids_editedAll_sublist (e : Edit) : ∀ ns : List (Node String),
    ((editedAll e ns).flatMap ids).Sublist (ns.flatMap ids)
  | [] => .refl _
  | n :: ns => by
    rw [editedAll]
    split
    next =>
      rw [List.flatMap_cons, List.flatMap_cons]
      exact (ids_edited_sublist e n).append (ids_editedAll_sublist e ns)
    next =>
      rw [List.flatMap_cons]
      exact (ids_editedAll_sublist e ns).trans (List.sublist_append_right _ _)

end

end Node

theorem Group.nodup_edited {t : Tree} (e : Edit) (h : t.ids.Nodup) : (t.edited e).ids.Nodup :=
  (Node.ids_edited_sublist e t.toNode).nodup h

/-! ### One edit after another -/

namespace Edit

/-- Two edits in one. -/
def andThen (e f : Edit) : Edit where
  keeps i k := e.keeps i k && f.keeps i k
  rule r := f.rule (e.rule r)
  combinator i c := f.combinator i (e.combinator i c)
  id_rule r := (f.id_rule _).trans (e.id_rule r)

/-- The edit changes no node of an id. -/
structure Spares (e : Edit) (i : String) : Prop where
  rule : ∀ r : Rule String, r.id = i → e.rule r = r
  combinator : ∀ c, e.combinator i c = c

/-- Edits commute if of each id one of the two spares the nodes. -/
theorem andThen_comm {e f : Edit} (h : ∀ i, e.Spares i ∨ f.Spares i) : e.andThen f = f.andThen e := by
  refine Edit.ext (funext fun i => funext fun k => Bool.and_comm _ _) (funext fun r => ?_)
    (funext fun i => funext fun c => ?_)
  · -- the edit that spares a rule spares also what the other one makes of it
    rcases h r.id with he | hf
    · exact (congrArg f.rule (he.rule r rfl)).trans (he.rule _ (f.id_rule r)).symm
    · exact (hf.rule _ (e.id_rule r)).trans (congrArg e.rule (hf.rule r rfl)).symm
  · rcases h i with he | hf
    · exact (congrArg (f.combinator i) (he.combinator c)).trans (he.combinator _).symm
    · exact (hf.combinator _).trans (congrArg (e.combinator i) (hf.combinator c)).symm

end Edit

mutual

theorem Node.edited_edited (e f : Edit) : ∀ n : Node String,
    (n.edited e).edited f = n.edited (e.andThen f)
  | .rule r => rfl
  | .group i c cs => by
    rw [edited_group, edited_group, edited_group, Node.editedAll_editedAll e f cs]
    rfl

theorem Node.editedAll_editedAll (e f : Edit) : ∀ ns : List (Node String),
    Node.editedAll f (Node.editedAll e ns) = Node.editedAll (e.andThen f) ns
  | [] => rfl
  | n :: ns => by
    have hboth : (e.andThen f).keeps n.id n.kind = (e.keeps n.id n.kind && f.keeps n.id n.kind) := rfl
    have htail := Node.editedAll_editedAll e f ns
    cases he : e.keeps n.id n.kind with
    | false =>
      rw [he] at hboth
      rw [editedAll_cons_of_not_keeps he, editedAll_cons_of_not_keeps hboth, htail]
    | true =>
      rw [he, Bool.true_and] at hboth
      rw [editedAll_cons_of_keeps he, editedAll, editedAll, id_edited, kind_edited, hboth, htail,
        Node.edited_edited e f n]

end

theorem Group.edited_edited (e f : Edit) (t : Tree) :
    (t.edited e).edited f = t.edited (e.andThen f) := by
  rw [edited, edited, edited, Node.editedAll_editedAll]
  rfl

/-! ### Nodes that an edit leaves alone -/

/-- The edit leaves a node as it is, whatever becomes of those below it. -/
def Edit.Leaves (e : Edit) : Node String → Prop
  | .rule r => e.keeps r.id .rule = true ∧ e.rule r = r
  | .group i c _ => e.keeps i .group = true ∧ e.combinator i c = c

/-- What an edit makes of a node itself, without those below it. -/
def Edit.own (e : Edit) : Node String → Node String
  | .rule r => .rule (e.rule r)
  | .group i c cs => .group i (e.combinator i c) cs

theorem Edit.Leaves.keeps {e : Edit} {n : Node String} (h : e.Leaves n) :
    e.keeps n.id n.kind = true := by
  cases n with
  | rule r => exact h.1
  | group i c cs => exact h.1

namespace Node

variable {e : Edit}

theorem id_mem_ids {m n : Node String} (h : m ∈ n.walk) : m.id ∈ n.ids := List.mem_map_of_mem h

theorem id_mem_flatMap_ids {m : Node String} {ns : List (Node String)} (h : m ∈ walkAll ns) :
    m.id ∈ ns.flatMap ids := by
  rw [walkAll_eq_flatMap] at h
  obtain ⟨n, hn, hm⟩ := List.mem_flatMap.1 h
  exact List.mem_flatMap.2 ⟨n, hn, id_mem_ids hm⟩

mutual

/-- A node is as it was if the edit leaves it alone with everything below it. -/
theorem edited_eq_self : ∀ {n : Node String}, (∀ m ∈ n.walk, e.Leaves m) → n.edited e = n
  | .rule r, h => congrArg rule (h (.rule r) List.mem_cons_self).2
  | .group i c cs, h => by
    have hself : e.combinator i c = c := (h (.group i c cs) List.mem_cons_self).2
    rw [edited_group, hself, editedAll_eq_self fun m hm => h m (List.mem_cons_of_mem _ hm)]

theorem editedAll_eq_self : ∀ {ns : List (Node String)}, (∀ m ∈ walkAll ns, e.Leaves m) →
    editedAll e ns = ns
  | [], _ => rfl
  | n :: ns, h => by
    have hn : ∀ m ∈ n.walk, e.Leaves m := fun m hm => h m (List.mem_append_left _ hm)
    rw [editedAll_cons_of_keeps (hn n n.self_mem_walk).keeps, edited_eq_self hn,
      editedAll_eq_self fun m hm => h m (List.mem_append_right _ hm)]

end

/-- Where no id is repeated, an edit that leaves alone all nodes of other ids changes the one node. -/
theorem edited_eq_replaceAt {n old : Node String} {path : List Nat} (hn : n.ids.Nodup)
    (h : n.at? path = some old) (hkeeps : ∀ i k, e.keeps i k = true)
    (hothers : ∀ m : Node String, m.id ≠ old.id → e.Leaves m) :
    n.edited e = n.replaceAt path (e.own old) := by
  -- a row in which no node has the id is left alone
  have hrow : ∀ ns : List (Node String), old.id ∉ ns.flatMap ids → editedAll e ns = ns :=
    fun ns hns => editedAll_eq_self fun m hm =>
      hothers m fun he => hns (he ▸ id_mem_flatMap_ids hm)
  induction path generalizing n with
  | nil =>
    cases (at?_nil n).symm.trans h
    rw [replaceAt_nil]
    cases old with
    | rule r => rfl
    | group i c cs =>
      rw [ids_group, List.nodup_cons] at hn
      rw [edited_group, hrow cs hn.1]
      rfl
  | cons k path ih =>
    obtain ⟨i, c, cs, d, rfl, hd, hold⟩ := at?_cons_eq_some h
    obtain ⟨before, after, rfl, -, hmodify⟩ := modify_of_getElem? hd
    obtain ⟨l, r, hids, -⟩ := ids_replaceAt hold
    have hmem : old.id ∈ d.ids := by
      simp [hids, id_mem_ids old.self_mem_walk]
    rw [ids_group, List.flatMap_append, List.flatMap_cons, List.nodup_cons, List.nodup_append,
      List.nodup_append] at hn
    obtain ⟨hi, -, ⟨hdn, -, hafter⟩, hbefore⟩ := hn
    have hgroup : i ≠ old.id := fun he => hi (by simp [he, hmem])
    have hc : e.combinator i c = c := (hothers (.group i c []) hgroup).2
    have hb : old.id ∉ before.flatMap ids := fun hb =>
      hbefore _ hb _ (List.mem_append_left _ hmem) rfl
    have ha : old.id ∉ after.flatMap ids := fun ha => hafter _ hmem _ ha rfl
    rw [edited_group, hc, replaceAt_group_cons, hmodify, editedAll_append, hrow before hb,
      editedAll_cons_of_keeps (hkeeps _ _), hrow after ha, ih hdn hold]

end Node

/-- An edit of one id changes the first node of the id. -/
theorem Group.edited_of_first? {e : Edit} {t : Tree} {id : String} {s : Site String}
    (ht : t.ids.Nodup) (h : t.first? id = some s) (hkeeps : ∀ i k, e.keeps i k = true)
    (hothers : ∀ m : Node String, m.id ≠ id → e.Leaves m) :
    (t.edited e).toNode = t.toNode.replaceAt s.path (e.own s.node) := by
  rw [toNode_edited]
  refine Node.edited_eq_replaceAt ht (Group.at?_of_first? h) hkeeps ?_
  rwa [Group.id_of_first? h]

/-! ### The nodes of one id -/

namespace Edit

/-- Changes the rules of an id, unless the change makes no difference. -/
def ofRulePatch (id : String) (p : RulePatch) : Edit where
  rule r := if r.id = id ∧ (p.apply r == r) = false then p.apply r else r
  id_rule r := by split <;> rfl

/-- Changes the combinator of the groups of an id. -/
def ofGroupPatch (id : String) (p : GroupPatch) : Edit where
  combinator i c := if i = id then p.combinator.getD c else c

/-- Takes out the nodes that have an id and an accepted kind. -/
def removal (id : String) (kind : Option Kind) : Edit where
  keeps i k := !decide (i = id ∧ kind.all (· = k))

theorem leaves_ofRulePatch {id : String} {p : RulePatch} {m : Node String} (h : m.id ≠ id) :
    (ofRulePatch id p).Leaves m := by
  cases m with
  | rule r => exact ⟨rfl, if_neg fun hr => h hr.1⟩
  | group i c cs => exact ⟨rfl, rfl⟩

theorem leaves_ofGroupPatch {id : String} {p : GroupPatch} {m : Node String} (h : m.id ≠ id) :
    (ofGroupPatch id p).Leaves m := by
  cases m with
  | rule r => exact ⟨rfl, rfl⟩
  | group i c cs => exact ⟨rfl, if_neg h⟩

theorem leaves_removal {id : String} {kind : Option Kind} {m : Node String} (h : m.id ≠ id) :
    (removal id kind).Leaves m := by
  cases m with
  | rule r => exact ⟨by simp [removal, show r.id ≠ id from h], rfl⟩
  | group i c cs => exact ⟨by simp [removal, show i ≠ id from h], rfl⟩

theorem spares_ofRulePatch {id i : String} (p : RulePatch) (h : i ≠ id) :
    (ofRulePatch id p).Spares i :=
  ⟨fun _ hr => if_neg fun hid => h (hr ▸ hid.1), fun _ => rfl⟩

theorem spares_ofGroupPatch {id i : String} (p : GroupPatch) (h : i ≠ id) :
    (ofGroupPatch id p).Spares i :=
  ⟨fun _ _ => rfl, fun _ => if_neg h⟩

theorem spares_removal (id : String) (kind : Option Kind) (i : String) :
    (removal id kind).Spares i :=
  ⟨fun _ _ => rfl, fun _ => rfl⟩

end Edit

/-- What a patch gives is what it gives a second time. -/
theorem RulePatch.apply_apply (p : RulePatch) (r : Rule String) : p.apply (p.apply r) = p.apply r := by
  obtain ⟨field, op, value, component, extra⟩ := p
  cases field <;> cases op <;> cases value <;> cases component <;> cases extra <;> rfl

namespace Edit

/-- A patch of the rules of an id makes no difference a second time. -/
theorem ofRulePatch_andThen_self (id : String) (p : RulePatch) :
    (ofRulePatch id p).andThen (ofRulePatch id p) = ofRulePatch id p := by
  refine Edit.ext rfl (funext fun r => ?_) rfl
  show (ofRulePatch id p).rule ((ofRulePatch id p).rule r) = (ofRulePatch id p).rule r
  by_cases hr : r.id = id ∧ (p.apply r == r) = false
  · have honce : (ofRulePatch id p).rule r = p.apply r := if_pos hr
    have hsame : (p.apply (p.apply r) == p.apply r) = true := by
      rw [p.apply_apply, Rule.beq_self]
    rw [honce]
    exact if_neg fun h => by simp [hsame] at h
  · have honce : (ofRulePatch id p).rule r = r := if_neg hr
    rw [honce, honce]

theorem ofGroupPatch_andThen_self (id : String) (p : GroupPatch) :
    (ofGroupPatch id p).andThen (ofGroupPatch id p) = ofGroupPatch id p := by
  refine Edit.ext rfl rfl (funext fun i => funext fun c => ?_)
  show (ofGroupPatch id p).combinator i ((ofGroupPatch id p).combinator i c) = _
  by_cases hi : i = id
  · simp only [ofGroupPatch, if_pos hi]
    cases p.combinator <;> rfl
  · simp only [ofGroupPatch, if_neg hi]

theorem removal_andThen_self (id : String) (kind : Option Kind) :
    (removal id kind).andThen (removal id kind) = removal id kind :=
  Edit.ext (funext fun _ => funext fun _ => Bool.and_self _) rfl rfl

end Edit

/-! ### Taking out the nodes of one id -/

namespace Node

variable {id : String} {kind : Option Kind}

theorem keeps_removal (n : Node String) :
    (Edit.removal id kind).keeps n.id n.kind = !decide (n.id = id ∧ n.isOf kind) := rfl

/-- A row without the id is left alone. -/
theorem editedAll_removal_of_notMem {ns : List (Node String)} (h : id ∉ ns.flatMap ids) :
    editedAll (.removal id kind) ns = ns :=
  editedAll_eq_self fun _ hm => Edit.leaves_removal fun he => h (he ▸ id_mem_flatMap_ids hm)

theorem id_of_removeBelow? {n m o : Node String} (h : n.removeBelow? id kind = some (m, o)) :
    m.id = id := by
  obtain ⟨g, hg⟩ := graft_of_removeBelow? h
  exact id_of_find?_accepts hg

mutual

/-- Where no id is repeated, the first node that is taken out from below another is the only one. -/
theorem edited_removal : ∀ {n : Node String}, n.ids.Nodup →
    n.edited (.removal id kind) = ((n.removeBelow? id kind).map Prod.snd).getD n
  | .rule r, _ => rfl
  | .group i c cs, h => by
    rw [ids_group, List.nodup_cons] at h
    rw [edited_group, editedAll_removal h.2, removeBelow?]
    cases removeFrom? id kind cs <;> rfl

theorem editedAll_removal : ∀ {ns : List (Node String)}, (ns.flatMap ids).Nodup →
    editedAll (.removal id kind) ns = ((removeFrom? id kind ns).map Prod.snd).getD ns
  | [], _ => rfl
  | n :: ns, h => by
    rw [List.flatMap_cons, List.nodup_append] at h
    obtain ⟨hn, hns, hapart⟩ := h
    have hrest : id ∈ n.ids → editedAll (.removal id kind) ns = ns := fun hid =>
      editedAll_removal_of_notMem fun hid' => hapart id hid id hid' rfl
    rw [removeFrom?]
    split
    next hmatch =>
      have hkeeps : (Edit.removal id kind).keeps n.id n.kind = false := by
        rw [keeps_removal, decide_eq_true hmatch]
        rfl
      rw [editedAll_cons_of_not_keeps hkeeps, hrest (hmatch.1 ▸ id_mem_ids n.self_mem_walk)]
      rfl
    next hmatch =>
      have hkeeps : (Edit.removal id kind).keeps n.id n.kind = true := by
        rw [keeps_removal, decide_eq_false hmatch]
        rfl
      rw [editedAll_cons_of_keeps hkeeps, edited_removal hn]
      cases hbelow : n.removeBelow? id kind with
      | some p =>
        obtain ⟨m, o⟩ := p
        obtain ⟨g, -⟩ := graft_of_removeBelow? hbelow
        obtain ⟨l, r, hids, -⟩ := g.ids_eq
        have hid : id ∈ n.ids := by
          have hm : m.id ∈ m.ids := id_mem_ids m.self_mem_walk
          simp [hids, ← id_of_removeBelow? hbelow, hm]
        rw [hrest hid]
        rfl
      | none =>
        rw [editedAll_removal hns]
        cases removeFrom? id kind ns <;> rfl

end

end Node

/-- Where no id is repeated, the removal of a node takes out all nodes of the id and the kind. -/
theorem Group.edited_removal {t : Tree} {id : String} {kind : Option Kind} (ht : t.ids.Nodup) :
    t.edited (.removal id kind) = ((t.remove? id kind).map Prod.snd).getD t := by
  rw [Group.ids_eq, List.nodup_cons] at ht
  rw [edited, Node.editedAll_removal ht.2, remove?]
  cases Node.removeFrom? id kind t.children <;> rfl

end Sieve
