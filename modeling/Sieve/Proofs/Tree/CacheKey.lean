import Sieve.Pipeline.Layers
import Sieve.Proofs.Json.Printed

/-!
# Trees by their texts

A result is kept by the text of its tree, so the text has to tell the tree: `cacheKey_injective`.  The
text tells the value (`Json.compact_injective`), and the value tells each node with its id, its kind
and, for a rule, whether it has extras.  This is finer than the equality of trees by which a store
decides whether something has changed: the two zeros have different texts.
-/

namespace Sieve

theorem Combinator.name_injective : Function.Injective Combinator.name := by
  intro c d h
  rw [← ofName_name c, ← ofName_name d, h]

/-- The members of a rule tell the rule. -/
theorem Rule.members_injective : Function.Injective (Rule.members (ι := String)) := by
  intro r s h
  obtain ⟨id, field, op, value, component, extra⟩ := r
  obtain ⟨id', field', op', value', component', extra'⟩ := s
  cases extra <;> cases extra' <;> simp_all [members, Mark.members]

/-- The members of a group. -/
def Node.groupMembers (id : String) (c : Combinator) (cs : List (Node String)) :
    List (String × Json) :=
  [("id", .str id), ("combinator", .str c.name), ("children", .arr (Node.encodeAll cs))]

theorem Node.encode_group (id : String) (c : Combinator) (cs : List (Node String)) :
    (Node.group id c cs).encode = .obj (("kind", .str "group") :: groupMembers id c cs) := rfl

theorem Group.encode_eq (t : Tree) :
    t.encode = .obj (Node.groupMembers t.id t.combinator t.children) := rfl

/-- The members of a group tell the group but for what is below it. -/
theorem Node.groupMembers_inj {id id' : String} {c c' : Combinator} {cs cs' : List (Node String)}
    (h : groupMembers id c cs = groupMembers id' c' cs') :
    id = id' ∧ c = c' ∧ Node.encodeAll cs = Node.encodeAll cs' := by
  simp only [groupMembers, List.cons.injEq, Prod.mk.injEq, Json.str.injEq, Json.arr.injEq,
    true_and, and_true] at h
  obtain ⟨hid, hname, hchildren⟩ := h
  exact ⟨hid, Combinator.name_injective hname, hchildren⟩

mutual

/-- A node in JSON tells the node. -/
theorem Node.encode_inj : ∀ {m n : Node String}, m.encode = n.encode → m = n
  | .rule r, .rule s, h => by
    simp only [encode, Json.obj.injEq, List.cons.injEq, true_and] at h
    rw [Rule.members_injective h]
  | .rule r, .group i c cs, h => by
    simp [encode] at h
  | .group i c cs, .rule s, h => by
    simp [encode] at h
  | .group i c cs, .group j d ds, h => by
    rw [encode_group, encode_group, Json.obj.injEq, List.cons.injEq] at h
    obtain ⟨hid, hc, hchildren⟩ := Node.groupMembers_inj h.2
    rw [hid, hc, Node.encodeAll_inj hchildren]

/-- A row of nodes in JSON tells the nodes. -/
theorem Node.encodeAll_inj : ∀ {ms ns : List (Node String)},
    Node.encodeAll ms = Node.encodeAll ns → ms = ns
  | [], [], _ => rfl
  | [], n :: ns, h => by cases h
  | m :: ms, [], h => by cases h
  | m :: ms, n :: ns, h => by
    simp only [encodeAll, List.cons.injEq] at h
    rw [Node.encode_inj h.1, Node.encodeAll_inj h.2]

end

/-- A tree in JSON tells the tree. -/
theorem Group.encode_injective : Function.Injective (Group.encode (ι := String)) := by
  intro g g' h
  obtain ⟨id, c, cs⟩ := g
  obtain ⟨id', c', cs'⟩ := g'
  rw [encode_eq, encode_eq, Json.obj.injEq] at h
  obtain ⟨hid, hc, hchildren⟩ := Node.groupMembers_inj h
  dsimp only at hid hc hchildren
  rw [hid, hc, Node.encodeAll_inj hchildren]

/-- The indented text of a node tells the node, too. -/
theorem Node.indented_injective : Function.Injective fun n : Node String => n.encode.indented :=
  fun _ _ h => encode_inj (Json.indented_injective h)

theorem Group.indented_injective : Function.Injective fun t : Tree => t.encode.indented :=
  Json.indented_injective.comp encode_injective

/-- Different trees are kept apart. -/
theorem cacheKey_injective : Function.Injective cacheKey :=
  Json.compact_injective.comp Group.encode_injective

/-- **Two trees have one text if and only if they are the same, node by node and value by value, and then
every evaluator gives the same verdict on every item, with the same events.** -/
theorem cacheKey_eq_iff (a b : Tree) :
    (cacheKey a = cacheKey b ↔ a = b) ∧
      (cacheKey a = cacheKey b → ∀ (e : Evaluator) (item : Json), e.tree item a = e.tree item b) :=
  ⟨cacheKey_injective.eq_iff, fun h e item => congrArg (e.tree item) (cacheKey_injective h)⟩

/-- A tree that asks for one of the two zeros. -/
def asksForZero (negative : Bool) : Tree :=
  ⟨"root", .and, [.rule ⟨"r", "a", "eq", .num (.real (.zero negative)), "number", none⟩]⟩

theorem cacheKey_asksForZero :
    (asksForZero false == asksForZero true) = true ∧
      cacheKey (asksForZero false) ≠ cacheKey (asksForZero true) ∧
      cacheKey ((asksForZero true).mapIds id) = cacheKey (asksForZero true) ∧
      ∀ (e : Evaluator) (item : Json),
        e.tree item ((asksForZero true).mapIds id) = e.tree item (asksForZero true) := by
  have hsame : cacheKey ((asksForZero true).mapIds id) = cacheKey (asksForZero true) := rfl
  have hdiffer : asksForZero false ≠ asksForZero true := by simp [asksForZero, Binary64.zero]
  refine ⟨by decide +kernel, fun h => hdiffer ((cacheKey_eq_iff _ _).1.1 h), hsame, ?_⟩
  exact (cacheKey_eq_iff _ _).2 hsame

end Sieve
