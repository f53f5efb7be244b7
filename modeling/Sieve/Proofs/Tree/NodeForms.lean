import Sieve.Proofs.Tree.RuleForms

/-!
# Groups and nodes by the names of their members

What a group and a node are decoded to is told by what stands under the names that are known.

* `GroupParts.fields`, `readGroupMembers_eq_readFields`: the members of a group are read as those of a record;
* `Group.MadeOf`, `Node.MadeOf`: what an object says of a group, and of a node of a kind;
* `GroupParts.whole_parts`, `GroupParts.readFields_eq_ok_iff`: the fields that are read from an object;
* `FaithfulMark`: marks whose rules are what their objects say of them, which ids and the mark of drafts both are;
* `Group.read_obj_eq_ok_iff`, `Node.read_obj_eq_ok_iff`: from a value or a buffer a group and a node are decoded to
  what their objects say of them.
-/

namespace Sieve

open Decode

variable {ι : Type} [Mark ι]

/-! ### Groups by the names of their members -/

/-- The mark of an id. -/
def Mark.readId (s : Source) : Except DecodeError ι := (readString s).map Mark.ofId

namespace GroupParts

/-- The id. -/
def idPart : RecordPart (GroupParts ι) :=
  ⟨"id", ι, fun _ => Mark.readId, (·.id), fun i a => { a with id := some i }⟩

/-- The combinator. -/
def combinatorPart : RecordPart (GroupParts ι) :=
  ⟨"combinator", _, fun _ => Combinator.read, (·.combinator), fun c a => { a with combinator := some c }⟩

/-- The children. -/
def childrenPart : RecordPart (GroupParts ι) :=
  ⟨"children", _, readChildren, (·.children), fun cs a => { a with children := some cs }⟩

/-- The parts that a group is read in, without the id if there are no ids. -/
def parts : List (RecordPart (GroupParts ι)) :=
  (if (Mark.fixed : Option ι).isNone then [idPart] else []) ++ [combinatorPart, childrenPart]

/-- The fields of a group. -/
def fields : List (RecordField (GroupParts ι)) := parts.map RecordPart.field

/-- The names of the members of a group. -/
def names (ι : Type) [Mark ι] : List String := Mark.names ι ++ ["combinator", "children"]

theorem mem_names {name : String} : name ∈ names ι ↔
    (name = "id" ∧ (Mark.fixed : Option ι).isNone = true) ∨ name = "combinator" ∨ name = "children" := by
  rw [names, Mark.names]
  split <;> simp [*]

theorem names_parts : (parts : List (RecordPart (GroupParts ι))).map RecordPart.name = names ι := by
  rw [parts, names, Mark.names]
  split <;> rfl

/-- The id is the rest of a group if there are no ids. -/
theorem whole_parts : RecordPart.Whole (parts : List (RecordPart (GroupParts ι)))
    fun a => if (Mark.fixed : Option ι).isNone then none else a.id where
  names := by
    rw [parts]
    split <;> simp [idPart, combinatorPart, childrenPart]
  get_put := by
    rw [parts]
    split <;> simp [idPart, combinatorPart, childrenPart]
  get_put_of_ne := by
    rw [parts]
    split <;> simp [idPart, combinatorPart, childrenPart]
  rest_put := by
    rw [parts]
    split <;> simp [idPart, combinatorPart, childrenPart]
  ext a b hrest h := by
    obtain ⟨_, _, _⟩ := a
    rw [parts] at h
    split at h
    · simp only [List.cons_append, List.nil_append, List.forall_mem_cons] at h
      obtain ⟨rfl, rfl, rfl, -⟩ := h
      rfl
    · next hfixed =>
      rw [if_neg hfixed, if_neg hfixed] at hrest
      simp only [List.nil_append, List.forall_mem_cons] at h
      obtain ⟨rfl, rfl, -⟩ := h
      cases hrest
      rfl

theorem find?_id (h : (Mark.fixed : Option ι).isNone = true) :
    (fields : List (RecordField (GroupParts ι))).find? (·.name = "id") = some idPart.field :=
  whole_parts.find?_field (p := idPart) (by simp [parts, h])

theorem find?_combinator :
    (fields : List (RecordField (GroupParts ι))).find? (·.name = "combinator") = some combinatorPart.field :=
  whole_parts.find?_field (p := combinatorPart) (by simp [parts])

theorem find?_children :
    (fields : List (RecordField (GroupParts ι))).find? (·.name = "children") = some childrenPart.field :=
  whole_parts.find?_field (p := childrenPart) (by simp [parts])

end GroupParts

/-- The members of a group are read as those of a record. -/
theorem readGroupMembers_eq_readFields (o : Origin) (ss : List (Option String × Source)) (a : GroupParts ι) :
    readGroupMembers o ss a = readFields GroupParts.fields o ss a := by
  induction ss generalizing a with
  | nil => rw [readGroupMembers, readFields]
  | cons m ss ih =>
    obtain ⟨name, s⟩ := m
    rw [readGroupMembers, readFields]
    refine bind_congr fun k => ?_
    simp only [ih]
    by_cases hid : k = "id" ∧ (Mark.fixed : Option ι).isNone = true
    · obtain ⟨rfl, hfixed⟩ := hid
      rw [if_pos ⟨rfl, hfixed⟩, GroupParts.find?_id hfixed]
      simp only [RecordPart.field, GroupParts.idPart, Mark.readId]
      cases readString s <;> rfl
    rw [if_neg hid]
    by_cases hcombinator : k = "combinator"
    · subst hcombinator
      rw [if_pos rfl, GroupParts.find?_combinator]
      simp only [RecordPart.field, GroupParts.combinatorPart, bind_assoc, pure_bind]
    rw [if_neg hcombinator]
    by_cases hchildren : k = "children"
    · subst hchildren
      rw [if_pos rfl, GroupParts.find?_children]
      simp only [RecordPart.field, GroupParts.childrenPart, bind_assoc, pure_bind]
    rw [if_neg hchildren]
    have hother : k ∉ (GroupParts.fields : List (RecordField (GroupParts ι))).map RecordField.name := by
      rw [GroupParts.fields, List.map_map]
      show k ∉ (GroupParts.parts : List (RecordPart (GroupParts ι))).map RecordPart.name
      rw [GroupParts.names_parts, GroupParts.mem_names]
      tauto
    rw [find?_name_eq_none hother]

/-- An object says a mark if it says its id, or if there is but one mark. -/
def Mark.SaidBy (ms : List (String × Json)) (i : ι) : Prop :=
  match (Mark.fixed : Option ι) with
  | some j => i = j
  | none => ∃ name, Keyed.lookup "id" ms = some (.str name) ∧ i = (Mark.ofId name : ι)

/-- An object says of a group what is told by the names of its members.  A combinator that is not told is `and`,
and children that are not told are none. -/
@[mk_iff]
structure Group.MadeOf (o : Origin) (ms : List (String × Json)) (g : Group ι) : Prop where
  id : Mark.SaidBy ms g.id
  combinator : ∃ name, (Keyed.lookup "combinator" ms).getD (.str "and") = .str name ∧ g.combinator = .ofName name
  children : readChildren o (Source.ofJson ((Keyed.lookup "children" ms).getD (.arr []))) = .ok g.children

namespace GroupParts

/-- The fields of a group, each read from the member of its name. -/
theorem readFields_eq_ok_iff {o : Origin} {ms : List (String × Json)} (once : ∀ name ∈ names ι, Keyed.Once name ms)
    {a b : GroupParts ι} (hfresh : Fresh fields a ms) : readFields fields o (Source.ofMembers ms) a = .ok b ↔
      (if (Mark.fixed : Option ι).isNone then
        Takes Mark.readId (Keyed.lookup "id" ms) a.id b.id else b.id = a.id) ∧
      Takes Combinator.read (Keyed.lookup "combinator" ms) a.combinator b.combinator ∧
      Takes (readChildren o) (Keyed.lookup "children" ms) a.children b.children := by
  rw [← names_parts, List.forall_mem_map] at once
  refine (readFields_parts_eq_ok_iff whole_parts once hfresh).trans ?_
  rw [parts]
  split <;> simp [idPart, combinatorPart, childrenPart]

omit [Mark ι] in
/-- The group of the parts that have been read. -/
theorem finish_eq_ok_iff {missing : String → DecodeError} {a : GroupParts ι} {g : Group ι} :
    a.finish missing = .ok g ↔
      a.id = some g.id ∧ g.combinator = a.combinator.getD .and ∧ g.children = a.children.getD [] := by
  constructor
  · intro h
    obtain ⟨id, hid, ⟨⟩⟩ := bind_eq_ok.1 h
    exact ⟨eq_some_of_required hid, rfl, rfl⟩
  · rintro ⟨hid, hcombinator, hchildren⟩
    rw [finish, hid]
    show Except.ok _ = Except.ok g
    rw [← hcombinator, ← hchildren]

end GroupParts

theorem map_readString_eq_ok_iff {α : Type} {f : String → α} {j : Json} {x : α} :
    (readString (Source.ofJson j)).map f = .ok x ↔ ∃ name, j = .str name ∧ x = f name := by
  simp only [map_eq_ok, readString_eq_ok_iff]
  exact exists_congr fun _ => and_congr_right fun _ => eq_comm

theorem takes_readId_iff {j? : Option Json} {i : ι} :
    Takes Mark.readId j? none (some i) ↔ ∃ name, j? = some (.str name) ∧ i = Mark.ofId name := by
  cases j? with
  | none => simp [takes_none]
  | some j => simp only [takes_some, Mark.readId, map_readString_eq_ok_iff, Option.some.injEq, exists_eq_right']

theorem takes_combinator_iff {j? : Option Json} {c : Combinator} :
    (∃ x, Takes Combinator.read j? none x ∧ c = x.getD .and) ↔
      ∃ name, j?.getD (.str "and") = .str name ∧ c = .ofName name := by
  cases j? with
  | none =>
    have hand : Combinator.ofName "and" = .and := rfl
    simp [takes_none, hand]
  | some j =>
    simp only [takes_some, Combinator.read, map_readString_eq_ok_iff, Option.getD_some]
    constructor
    · rintro ⟨_, ⟨c', ⟨name, hj, rfl⟩, rfl⟩, hc⟩
      exact ⟨name, hj, hc⟩
    · rintro ⟨name, hj, hc⟩
      exact ⟨_, ⟨_, ⟨name, hj, rfl⟩, rfl⟩, hc⟩

/-- Where a source is entered for nothing there is room for everything. -/
theorem Origin.admits_of_enter {o : Origin} (ho : o.enter = .ok o) (d : Nat) : o.admits d = true := by
  cases o with
  | text room => cases room <;> simp [enter] at ho
  | value => rfl
  | buffered => rfl

theorem readChildren_arr {o : Origin} (ho : o.enter = .ok o) (xs : List Json) :
    readChildren o (Source.ofJson (.arr xs)) = Node.readAll (ι := ι) o (Source.ofItems xs) := by
  rw [Source.ofJson, readChildren, ho]
  show (Node.readAll o (Source.ofItems xs) >>= fun ns => Except.ok ns) = _
  cases Node.readAll (ι := ι) o (Source.ofItems xs) <;> rfl

theorem takes_readChildren_iff {o : Origin} (ho : o.enter = .ok o) {j? : Option Json} {cs : List (Node ι)} :
    (∃ x, Takes (readChildren o) j? none x ∧ cs = x.getD []) ↔
      readChildren o (Source.ofJson (j?.getD (.arr []))) = .ok cs := by
  cases j? with
  | none =>
    have hnone : readChildren o (Source.ofJson (.arr [])) = .ok ([] : List (Node ι)) := by
      rw [readChildren_arr ho, Source.ofItems, Node.readAll]
    simp [takes_none, hnone, eq_comm]
  | some j => simp [takes_some]

theorem GroupParts.not_seen_start : ∀ f ∈ (fields : List (RecordField (GroupParts ι))), f.seen .start = false := by
  rw [fields, parts]
  split
  next hfixed =>
    rw [Option.isNone_iff_eq_none] at hfixed
    simp [RecordPart.field, idPart, combinatorPart, childrenPart, start, hfixed]
  next => simp [RecordPart.field, combinatorPart, childrenPart, start]

/-- The mark is read from its id if there are ids, and is there from the start if there are none. -/
theorem Mark.takes_start_iff {ms : List (String × Json)} {i : ι} :
    (if (Mark.fixed : Option ι).isNone then
      Takes Mark.readId (Keyed.lookup "id" ms) (GroupParts.start : GroupParts ι).id (some i)
      else some i = (GroupParts.start : GroupParts ι).id) ↔ Mark.SaidBy ms i := by
  rw [GroupParts.start, SaidBy]
  cases (Mark.fixed : Option ι) with
  | none => exact takes_readId_iff
  | some j => exact Option.some_inj

/-- What is read for a group is what the object says of it. -/
theorem readGroupParts_eq_ok_iff {o : Origin} (ho : o.enter = .ok o) {ms : List (String × Json)}
    (once : ∀ name ∈ GroupParts.names ι, Keyed.Once name ms) {missing : String → DecodeError} {g : Group ι} :
    (readGroupMembers o (Source.ofMembers ms) .start >>= GroupParts.finish missing) = .ok g ↔ g.MadeOf o ms := by
  have hfresh := fresh_of_not_seen (GroupParts.not_seen_start (ι := ι)) ms
  rw [readGroupMembers_eq_readFields, bind_eq_ok, Group.madeOf_iff, ← takes_combinator_iff,
    ← takes_readChildren_iff ho, ← Mark.takes_start_iff]
  simp only [GroupParts.readFields_eq_ok_iff once hfresh, GroupParts.finish_eq_ok_iff]
  constructor
  · rintro ⟨a, ⟨hsaid, hcombinator, hchildren⟩, haid, dcombinator, dchildren⟩
    exact ⟨haid ▸ hsaid, ⟨_, hcombinator, dcombinator⟩, ⟨_, hchildren, dchildren⟩⟩
  · rintro ⟨hsaid, ⟨c?, hcombinator, dcombinator⟩, ⟨cs?, hchildren, dchildren⟩⟩
    exact ⟨⟨some g.id, c?, cs?⟩, ⟨hsaid, hcombinator, hchildren⟩, rfl, dcombinator, dchildren⟩

/-- A group is what its object says of it. -/
theorem Group.read_obj_eq_ok_iff {o : Origin} (ho : o.enter = .ok o) {ms : List (String × Json)}
    (once : ∀ name ∈ GroupParts.names ι, Keyed.Once name ms) {g : Group ι} :
    Group.read o (Source.ofJson (.obj ms)) = .ok g ↔ g.MadeOf o ms := by
  rw [Source.ofJson, Group.read, ho, ← readGroupParts_eq_ok_iff ho once]
  rfl

/-! ### Nodes by the names of their members -/

/-- Marks whose rules are what their objects say of them. -/
class FaithfulMark (ι : Type) [Mark ι] : Prop where
  readRule_obj {ms : List (String × Json)} (once : ∀ name ∈ RuleParts.names ι, Keyed.Once name ms) {r : Rule ι} :
    Mark.readRule .buffered (Source.ofJson (.obj ms)) = .ok r ↔ Mark.SaidBy ms r.id ∧ r.MadeOf ms

instance : FaithfulMark Unit where
  readRule_obj {ms} once r := by
    have hsaid : Mark.SaidBy ms r.id := rfl
    show readDraftRule .buffered _ = _ ↔ _
    rw [readDraftRule_obj (Origin.admits_buffered _), readParts_eq_ok_iff (RuleParts.once_of_names once)]
    exact (and_iff_right hsaid).symm

instance : FaithfulMark String where
  readRule_obj {ms} once r := by
    show readStoredRule .buffered _ = _ ↔ _
    rw [readStoredRule_eq_ok_iff (once "id" List.mem_cons_self) (Origin.admits_buffered _)]
    simp only [readDraftRule_obj (Origin.admits_buffered _), readParts_eq_ok_iff (RuleParts.once_of_names once)]
    constructor
    · rintro ⟨id, d, hid, hd, rfl⟩
      exact ⟨⟨id, hid, rfl⟩, hd.field, hd.op, hd.component, hd.value, hd.extra⟩
    · rintro ⟨⟨id, hid, hr⟩, h⟩
      refine ⟨id, r.mapId fun _ => (), hid, ⟨h.field, h.op, h.component, h.value, h.extra⟩, ?_⟩
      obtain ⟨_, _, _, _, _, _⟩ := r
      cases hr
      rfl

/-- The kind of a node is read from a record of one field. -/
theorem readKind_eq_readFields {o : Origin} {ms : List (String × Json)}
    (hroom : o.admits (Json.depthMembers ms) = true) (found : Option Kind) :
    readKind o (Source.ofMembers ms) found =
      readFields [soleField "kind" Kind.read] o (Source.ofMembers ms) found := by
  refine eq_readFields_soleField (fun _ => rfl) (fun k s ss x => ?_) hroom
  rw [readKind]
  rfl

/-- A kind is read from a buffer wherever it is read. -/
theorem Kind.read_buffered {o : Origin} {s : Source} {k : Kind} (h : Kind.read o s = .ok k) :
    Kind.read .buffered s = .ok k := by
  have hread := h
  unfold Kind.read at h
  split at h
  · exact h
  · exact h
  · cases h
  · exact hread
  · cases h

/-- The names of the members of a node of a kind. -/
def Node.names (ι : Type) [Mark ι] : Kind → List String
  | .rule => "kind" :: RuleParts.names ι
  | .group => "kind" :: GroupParts.names ι

/-- An object says of a node of a kind what it says of a rule or of a group. -/
def Node.MadeOf (ms : List (String × Json)) (n : Node ι) : Kind → Prop
  | .rule => ∃ r : Rule ι, Mark.SaidBy ms r.id ∧ r.MadeOf ms ∧ n = .rule r
  | .group => ∃ g : Group ι, g.MadeOf .buffered ms ∧ n = g.toNode

/-- A node whose kind is said is what its object says of it, if the kind is read. -/
theorem Node.read_obj_eq_ok_iff [FaithfulMark ι] {o : Origin} (ho : o.enter = .ok o) {ms : List (String × Json)}
    {k : Kind} (once : ∀ name ∈ names ι k, Keyed.Once name ms) {kind : Json}
    (hkind : Keyed.lookup "kind" ms = some kind) (hk : Kind.read .buffered (Source.ofJson kind) = .ok k)
    {n : Node ι} :
    Node.read o (Source.ofJson (.obj ms)) = .ok n ↔ Kind.read o (Source.ofJson kind) = .ok k ∧ n.MadeOf ms k := by
  have honce : Keyed.Once "kind" ms := once "kind" (by cases k <;> exact List.mem_cons_self)
  have hfresh : Fresh [soleField "kind" Kind.read] none ms := fresh_of_not_seen (List.forall_mem_singleton.2 rfl) ms
  rw [Source.ofJson, Node.read, ho]
  show (readKind o (Source.ofMembers ms) none >>= _) = _ ↔ _
  rw [readKind_eq_readFields (Origin.admits_of_enter ho _), bind_eq_ok]
  simp only [readFields_soleField_eq_ok_iff honce hfresh, hkind, takes_some]
  constructor
  · rintro ⟨_, ⟨k', hk', rfl⟩, h⟩
    cases hk.symm.trans (Kind.read_buffered hk')
    refine ⟨hk', ?_⟩
    cases k with
    | rule =>
      obtain ⟨r, hr, rfl⟩ := map_eq_ok.1 h
      obtain ⟨hsaid, hmade⟩ := (FaithfulMark.readRule_obj (List.forall_mem_cons.1 once).2).1 hr
      exact ⟨r, hsaid, hmade, rfl⟩
    | group =>
      obtain ⟨a, ha, h⟩ := bind_eq_ok.1 (show (readGroupMembers .buffered (Source.ofMembers ms) .start >>= fun a =>
        a.finish .missingField >>= fun g => pure g.toNode) = .ok n from h)
      obtain ⟨g, hg, ⟨⟩⟩ := bind_eq_ok.1 h
      exact ⟨g, (readGroupParts_eq_ok_iff rfl (List.forall_mem_cons.1 once).2).1 (bind_eq_ok.2 ⟨a, ha, hg⟩), rfl⟩
  · rintro ⟨hk', h⟩
    refine ⟨some k, ⟨k, hk', rfl⟩, ?_⟩
    cases k with
    | rule =>
      obtain ⟨r, hsaid, hmade, rfl⟩ := h
      exact map_eq_ok.2 ⟨r, (FaithfulMark.readRule_obj (List.forall_mem_cons.1 once).2).2 ⟨hsaid, hmade⟩, rfl⟩
    | group =>
      obtain ⟨g, hmade, rfl⟩ := h
      obtain ⟨a, ha, hg⟩ := bind_eq_ok.1 ((readGroupParts_eq_ok_iff rfl (List.forall_mem_cons.1 once).2).2 hmade)
      show (readGroupMembers .buffered (Source.ofMembers ms) .start >>= fun a =>
        a.finish .missingField >>= fun g => pure g.toNode) = .ok g.toNode
      exact bind_eq_ok.2 ⟨a, ha, bind_eq_ok.2 ⟨g, hg, rfl⟩⟩

end Sieve
