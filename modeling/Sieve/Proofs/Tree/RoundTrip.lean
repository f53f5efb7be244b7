import Sieve.Proofs.Json.Decoded
import Sieve.Proofs.Json.Nesting
import Sieve.Proofs.Json.Scanned
import Sieve.Proofs.Tree.CacheKey
import Sieve.Store

/-!
# Trees read back from their texts

A text of a tree decodes to the very tree, in either layout, unless it is nested too deep.

* `Group.Ordered`: the objects in the rules of a tree have their members in increasing order of
  names, each name once.  Mappings have no other order;
* `Node.read_ofJson`, `Group.read_ofJson`: a node and a tree decode to themselves where there is room
  for them.  A node takes its room when it is set aside, and what is below it is not measured again;
* `Decode.ofText_render`, `Group.ofText_render`: the same for a text, if the numbers in it read back;
* `Store.text_roundTrip`: the texts of a store, with the exact limit.
-/

namespace Sieve

open Decode

/-! ### Trees that hold ordered values -/

/-- The values in a rule have the members of their objects in increasing order of names. -/
structure Rule.Ordered {ι : Type} (r : Rule ι) : Prop where
  value : r.value.sorted = r.value
  extra : ∀ ms ∈ r.extra, (Json.obj ms).sorted = .obj ms

/-- The values in all rules of a tree are so. -/
def Group.Ordered {ι : Type} (g : Group ι) : Prop := ∀ r, Node.rule r ∈ g.walk → r.Ordered

/-! ### Rules -/

namespace Rule

variable {r : Rule String}

/-- The members of a rule decode to the rule once they have been set aside, be the kind among them
or not. -/
theorem readStoredRule_members (hr : r.Ordered) :
    readStoredRule .buffered
      (.object (Source.ofMembers (("kind", .str "rule") :: r.members)) .closed) = .ok r := by
  obtain ⟨id, field, op, value, component, extra⟩ := r
  obtain ⟨hvalue, hextra⟩ := hr
  simp only at hvalue hextra
  have hv : readJson .buffered (Source.ofJson value) = .ok value := by
    rw [readJson_ofJson, hvalue]
    rfl
  cases extra with
  | none =>
    simp [readStoredRule, members, Mark.members, Source.ofMembers, Source.ofJson, readRuleId,
      readFields, RuleParts.fields, Origin.enter, readName, readString, setAside, Ending.close,
      required, skip, hv, RuleParts.finish, Rule.mapId, bind, Except.bind, pure, Except.pure]
  | some ms =>
    have hm : readObject .buffered (Source.ofJson (.obj ms)) = .ok ms := by
      rw [readObject_ofJson]
      simp only [Origin.admits, within_true]
      have := hextra ms rfl
      simp only [Json.sorted, Json.obj.injEq] at this
      rw [this]
    rw [Source.ofJson] at hm
    simp [readStoredRule, members, Mark.members, Source.ofMembers, Source.ofJson, readRuleId,
      readFields, RuleParts.fields, Origin.enter, readName, readString, setAside, Ending.close,
      required, skip, hv, RuleParts.finish, Rule.mapId, readOption, hm, bind, Except.bind, pure,
      Except.pure, Except.map]

end Rule

/-! ### Nodes -/

/-- Members among which there is no further kind are set aside. -/
theorem readKind_ofMembers (o : Origin) (k : Kind) {ms : List (String × Json)}
    (hms : ∀ m ∈ ms, m.1 ≠ "kind") : readKind o (Source.ofMembers ms) (some k) =
      within (o.admits (Json.depthMembers ms)) (some k) := by
  induction ms with
  | nil => simp [Source.ofMembers, readKind, Json.depthMembers]
  | cons m ms ih =>
    have hm := hms m List.mem_cons_self
    have hrest := ih fun m' hm' => hms m' (List.mem_cons_of_mem _ hm')
    obtain ⟨name, j⟩ := m
    rw [Source.ofMembers, readKind, Json.depthMembers, Origin.admits_max]
    simp only [readName, bind, Except.bind, if_neg hm]
    exact setAside_ofJson o j ▸ within_bind _ hrest

/-- The kind of a node is found in its first member. -/
theorem readKind_cons (o : Origin) {k : Kind} {name : String}
    (hk : Kind.read o (.string (some name)) = .ok k) {ms : List (String × Json)}
    (hms : ∀ m ∈ ms, m.1 ≠ "kind") : readKind o (Source.ofMembers (("kind", .str name) :: ms)) none =
      within (o.admits (Json.depthMembers (("kind", .str name) :: ms))) (some k) := by
  have hdepth : (Json.str name).depth = 0 := rfl
  rw [Source.ofMembers, Source.ofJson, readKind, Json.depthMembers, hdepth, Nat.zero_max]
  simp only [readName, bind, Except.bind, if_true, Option.isSome_none, Bool.false_eq_true, if_false,
    hk]
  exact readKind_ofMembers o k hms

theorem Rule.members_ne_kind (r : Rule String) : ∀ m ∈ r.members, m.1 ≠ "kind" := by
  obtain ⟨id, field, op, value, component, extra⟩ := r
  cases extra with
  | none => simp [members, Mark.members]
  | some ms => simp [members, Mark.members]

/-- The members of a group decode to its parts if the children decode. -/
theorem readGroupMembers_ofMembers (o : Origin) (id : String) (c : Combinator)
    {cs : List (Node String)} {room : Bool}
    (hcs : readChildren o (Source.ofJson (.arr (Node.encodeAll cs))) = within room cs) :
    readGroupMembers o (Source.ofMembers (Node.groupMembers id c cs)) .start =
      within room ⟨some id, some c, some cs⟩ := by
  have hc : Combinator.read (.string (some c.name)) = .ok c := by
    simp only [Combinator.read, readString, Except.map, Combinator.ofName_name]
  have hstr : ∀ s : String, Source.ofJson (.str s) = .string (some s) := fun _ => rfl
  simp only [Node.groupMembers, Source.ofMembers, hstr, readGroupMembers, readName, readString, bind,
    Except.bind, hcs, GroupParts.start, hc, Mark.fixed, Mark.ofId]
  exact within_bind_ok room rfl

/-- The kind of a group is passed over among its members. -/
theorem readGroupMembers_kind (o : Origin) (name : String) (ms : List (String × Json))
    (a : GroupParts String) : readGroupMembers o (Source.ofMembers (("kind", .str name) :: ms)) a =
      readGroupMembers o (Source.ofMembers ms) a := by
  rw [Source.ofMembers, readGroupMembers]
  rfl

/-- Children decode if they do so one by one. -/
theorem readChildren_ofJson {ι : Type} [Mark ι] (o : Origin) {js : List Json} {cs : List (Node ι)}
    (hcs : ∀ o, Node.readAll o (Source.ofItems js) = within (Origin.admits o (Json.depthItems js)) cs) :
    readChildren o (Source.ofJson (.arr js)) = within (o.admits (Json.arr js).depth) cs := by
  rw [Source.ofJson, readChildren, Json.depth]
  refine o.enter_bind fun o => ?_
  rw [hcs o]
  exact within_bind_ok _ rfl

mutual

/-- A node decodes to itself where there is room for it. -/
theorem Node.read_ofJson : ∀ (o : Origin) (n : Node String),
    (∀ r, Node.rule r ∈ n.walk → r.Ordered) →
    Node.read o (Source.ofJson n.encode) = within (o.admits n.encode.depth) n
  | o, .rule r, h => by
    have hr := Rule.readStoredRule_members (h r List.mem_cons_self)
    rw [encode, Source.ofJson, Node.read, Json.depth]
    refine o.enter_bind fun o => ?_
    rw [readKind_cons o rfl r.members_ne_kind]
    refine within_bind_ok _ ?_
    show (readStoredRule .buffered _).map Node.rule = _
    rw [hr]
    rfl
  | o, .group i c cs, h => by
    -- the children have been let in with the whole node, and have room then
    have hcs := readChildren_ofJson .buffered fun o => Node.readAll_ofItems o cs fun r hr =>
      h r (List.mem_cons_of_mem _ hr)
    have hgroup := readGroupMembers_ofMembers .buffered i c hcs
    rw [← readGroupMembers_kind .buffered "group"] at hgroup
    have hkind : ∀ m ∈ groupMembers i c cs, m.1 ≠ "kind" := by
      simp [groupMembers]
    rw [encode_group, Source.ofJson, Node.read, Json.depth]
    refine o.enter_bind fun o => ?_
    rw [readKind_cons o rfl hkind]
    refine within_bind_ok _ ?_
    show (readGroupMembers .buffered _ _ >>= fun a => a.finish .missingField >>= fun g => _) = _
    rw [hgroup]
    rfl

/-- A row of nodes decodes to itself where there is room for it. -/
theorem Node.readAll_ofItems : ∀ (o : Origin) (ns : List (Node String)),
    (∀ r, Node.rule r ∈ Node.walkAll ns → r.Ordered) →
    Node.readAll o (Source.ofItems (Node.encodeAll ns)) =
      within (o.admits (Json.depthItems (Node.encodeAll ns))) ns
  | o, [], _ => by
    simp [Node.encodeAll, Source.ofItems, Node.readAll, Json.depthItems]
  | o, n :: ns, h => by
    rw [Node.encodeAll, Source.ofItems, Node.readAll, Json.depthItems, Origin.admits_max,
      Node.read_ofJson o n fun r hr => h r (List.mem_append_left _ hr),
      Node.readAll_ofItems o ns fun r hr => h r (List.mem_append_right _ hr)]
    exact within_bind _ (within_bind_ok _ rfl)

end

/-- A tree decodes to itself where there is room for it. -/
theorem Group.read_ofJson (o : Origin) {t : Tree} (h : t.Ordered) :
    Group.read o (Source.ofJson t.encode) = within (o.admits t.encode.depth) t := by
  rw [encode_eq, Source.ofJson, Group.read, Json.depth]
  refine o.enter_bind fun o => ?_
  have hdepth : Json.depthMembers (Node.groupMembers t.id t.combinator t.children) =
      (Json.arr (Node.encodeAll t.children)).depth := by
    simp [Node.groupMembers, Json.depthMembers, Json.depth]
  have hcs := readChildren_ofJson o fun o => Node.readAll_ofItems o t.children fun r hr =>
    h r (List.mem_cons_of_mem _ hr)
  rw [readGroupMembers_ofMembers o t.id t.combinator hcs, hdepth]
  exact within_bind_ok _ rfl

/-! ### Texts -/

/-- What decodes where there is room for it does so from a text whose numbers read back. -/
theorem Decode.ofText_render {α : Type} {read : Decoder α} {l : Json.Layout} (hl : l.Blank) {j : Json}
    (hn : ∀ x ∈ j.numbers, x.ReadsBack) {a : α}
    (hread : ∀ o, read o (Source.ofJson j) = within (Origin.admits o j.depth) a) :
    Decode.ofText read (j.render l) = if j.depth ≤ maxDepth then .ok a else .error .malformed := by
  have hsource := Source.ofPrinted_eq_ofJson j fun x hx => (hn x hx).literal_read
  simp only [Decode.ofText, Source.ofText_render hl, hsource, hread, Origin.admits, within,
    decide_eq_true_eq]
  split
  next => rfl
  next => rfl

/-- A text of a tree all of whose numbers read back decodes to the tree, unless it is too deep. -/
theorem Group.ofText_render {l : Json.Layout} (hl : l.Blank) {t : Tree} (ht : t.Ordered)
    (hn : ∀ x ∈ t.encode.numbers, x.ReadsBack) :
    Decode.ofText Group.read (t.encode.render l) =
      if t.encode.depth ≤ maxDepth then .ok t else .error .malformed :=
  Decode.ofText_render hl hn fun o => Group.read_ofJson o ht

/-- The text of a store, and the text by which results for its tree are kept, give the tree back as
long as no more than 127 brackets are open at once; else the text breaks the grammar. -/
theorem Store.text_roundTrip (ids : IdSupply) (s : Store) (ht : s.tree.Ordered)
    (hn : ∀ x ∈ s.tree.encode.numbers, x.ReadsBack) :
    nesting (cacheKey s.tree) = nesting s.text ∧
    (nesting s.text ≤ 127 → Store.ofText ids s.text = .ok (Store.ofTree ids s.tree) ∧
      Decode.ofText Group.read (cacheKey s.tree) = .ok s.tree) ∧
    (128 ≤ nesting s.text → Store.ofText ids s.text = .error (.unreadable .malformed)) := by
  have hindented : nesting s.text = s.tree.encode.depth :=
    Json.nesting_render Json.Layout.blank_indented _
  have hcompact : nesting (cacheKey s.tree) = s.tree.encode.depth :=
    Json.nesting_render Json.Layout.blank_compact _
  have hread := Group.ofText_render Json.Layout.blank_indented ht hn
  have hkey := Group.ofText_render Json.Layout.blank_compact ht hn
  rw [hindented, hcompact]
  refine ⟨rfl, fun h => ?_, fun h => ?_⟩
  · have hd : s.tree.encode.depth ≤ maxDepth := h
    rw [if_pos hd] at hread hkey
    constructor
    · simp only [Store.ofText, Store.text, Json.indented, hread]
    · exact hkey
  · have hd : ¬ s.tree.encode.depth ≤ maxDepth := Nat.not_le_of_lt h
    rw [if_neg hd] at hread
    simp only [Store.ofText, Store.text, Json.indented, hread]

/-- Null in so many arrays. -/
def boxed : Nat → Json
  | 0 => .null
  | n + 1 => .arr [boxed n]

theorem sorted_boxed (n : Nat) : (boxed n).sorted = boxed n := by
  induction n with
  | zero => rfl
  | succ n ih => rw [boxed, Json.sorted, Json.sortedItems, ih, Json.sortedItems]

theorem depth_boxed (n : Nat) : (boxed n).depth = n := by
  induction n with
  | zero => rfl
  | succ n ih => simp [boxed, Json.depth, Json.depthItems, ih]

theorem numbers_boxed (n : Nat) : (boxed n).numbers = [] := by
  induction n with
  | zero => rfl
  | succ n ih => simp [boxed, Json.numbers, Json.numbersOfItems, ih]

/-- A rule about a boxed null, for a component whose default is no null. -/
def boxedRule (n : Nat) : Rule String :=
  ⟨"r", "f", "in", boxed n, Component.multiselect, some [("order", .num (.integer 1 (by decide)))]⟩

/-- A store of the rule. -/
def boxedStore (n : Nat) : Store :=
  Store.ofTree ⟨fun _ => "", 0⟩ ⟨"root", .and, [.rule (boxedRule n)]⟩

theorem ordered_boxedStore (n : Nat) : (boxedStore n).tree.Ordered := by
  intro r hr
  have hrule : r = boxedRule n := by
    simpa [boxedStore, Store.ofTree, Group.walk, Group.toNode, Node.walk] using hr
  subst hrule
  exact ⟨sorted_boxed n, by rintro ms ⟨⟩; rfl⟩

theorem numbers_boxedStore (n : Nat) :
    (boxedStore n).tree.encode.numbers = [.integer 1 (by decide)] := by
  simp [boxedStore, boxedRule, Store.ofTree, Group.encode_eq, Node.groupMembers, Node.encodeAll,
    Node.encode, Rule.members, Mark.members, Json.numbers, Json.numbersOfMembers,
    Json.numbersOfItems, numbers_boxed]

theorem nesting_boxedStore (n : Nat) : nesting (boxedStore n).text = max n 1 + 3 := by
  have h := Json.nesting_render Json.Layout.blank_indented (boxedStore n).tree.encode
  rw [Store.text, Json.indented, h]
  simp [boxedStore, boxedRule, Store.ofTree, Group.encode_eq, Node.groupMembers, Node.encodeAll,
    Node.encode, Rule.members, Mark.members, Json.depth, Json.depthMembers, Json.depthItems,
    depth_boxed]

/-- The last depth that is read back and the first that is not. -/
theorem Store.text_roundTrip_boxed :
    Store.ofText ⟨fun _ => "", 0⟩ (boxedStore 0).text = .ok (boxedStore 0) ∧
    Store.ofText ⟨fun _ => "", 0⟩ (boxedStore 124).text = .ok (boxedStore 124) ∧
    Store.ofText ⟨fun _ => "", 0⟩ (boxedStore 125).text = .error (.unreadable .malformed) := by
  have hall : ∀ n, ∀ x ∈ (boxedStore n).tree.encode.numbers, x.ReadsBack := by
    intro n x hx
    rw [numbers_boxedStore, List.mem_singleton] at hx
    rw [hx]
    exact Number.readsBack_integer 1 _
  refine ⟨?_, ?_, ?_⟩
  · exact ((Store.text_roundTrip _ _ (ordered_boxedStore 0) (hall 0)).2.1
      (by rw [nesting_boxedStore]; decide)).1
  · exact ((Store.text_roundTrip _ _ (ordered_boxedStore 124) (hall 124)).2.1
      (by rw [nesting_boxedStore]; decide)).1
  · exact (Store.text_roundTrip _ _ (ordered_boxedStore 125) (hall 125)).2.2
      (by rw [nesting_boxedStore]; decide)

end Sieve
