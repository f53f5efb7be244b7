import Mathlib.Algebra.Order.Group.Multiset
import Mathlib.Tactic.Abel
import Sieve.Fields.Wire
import Sieve.Proofs.Json.Ordered
import Sieve.Proofs.Tree.Patch

/-!
# Trees and drafts as values

A value has the members of all its objects in increasing order of names, so the kind of a node and the id of
a rule stand anywhere among the members that are set aside for later.

* `Node.Ordered`: a node that holds ordered values, like a `Group.Ordered`;
* `Rule.membersInOrder`, `Node.groupMembersInOrder`: the members as they stand in a value;
* `LawfulMark`: what is needed of a mark, which ids and the mark of drafts both have;
* `Rule.read_sorted`, `Node.read_sorted`, `Group.read_sorted`: each decodes to itself from its value, where
  there is room for it;
* `Node.read_ensures`, `Group.read_ensures`: what has been decoded holds ordered values, from whatever source.
-/

namespace Sieve

open Decode

/-! ### Nodes that hold ordered values -/

namespace Node

variable {ι : Type}

/-- The values in all rules of a node have the members of their objects in increasing order of names. -/
def Ordered (n : Node ι) : Prop := ∀ r, rule r ∈ n.walk → r.Ordered

/-- The nodes of a row hold ordered values if each of them does. -/
theorem ordered_walkAll {ns : List (Node ι)} (h : ∀ n ∈ ns, n.Ordered) :
    ∀ r, rule r ∈ walkAll ns → r.Ordered := by
  intro r hr
  rw [walkAll_eq_flatMap, List.mem_flatMap] at hr
  obtain ⟨n, hn, hr⟩ := hr
  exact h n hn r hr

theorem ordered_rule {r : Rule ι} (h : r.Ordered) : (rule r).Ordered := by
  intro s hs
  cases List.mem_singleton.1 hs
  exact h

theorem ordered_group (i : ι) (c : Combinator) {cs : List (Node ι)} (h : ∀ n ∈ cs, n.Ordered) :
    (group i c cs).Ordered := by
  intro r hr
  rcases List.mem_cons.1 hr with hr | hr
  · cases hr
  · exact ordered_walkAll h r hr

end Node

section

variable {ι : Type}

/-- The children that have been read of a group hold ordered values. -/
def GroupParts.Ordered (a : GroupParts ι) : Prop := ∀ cs ∈ a.children, ∀ n ∈ cs, n.Ordered

theorem GroupParts.Ordered.finish {a : GroupParts ι} (ha : a.Ordered) {missing : String → DecodeError}
    {g : Group ι} (h : a.finish missing = .ok g) : g.Ordered := by
  obtain ⟨i, -, ⟨⟩⟩ := bind_eq_ok.1 h
  refine Node.ordered_group i _ ?_
  cases hcs : a.children with
  | none => simp
  | some cs => exact ha cs hcs

end

/-! ### Members that are read, passed over and set aside -/

/-- A member that is left out if there is nothing in it is read if it is there. -/
theorem Decode.readFields_memberIfAny {α γ : Type} {fields : List (RecordField α)} {f : RecordField α} {o : Origin}
    {name : String} {encode : γ → Json} {x? : Option γ} {ms : List (String × Json)} {a c : α}
    {g : Option γ → α} (hfield : fields.find? (·.name = name) = some f) (hseen : f.seen a = false)
    (hnone : g none = a)
    (hsome : ∀ x ∈ x?, f.read o (Source.ofJson (encode x)) a = within (o.admits (encode x).depth) (g (some x)))
    (hrest : readFields fields o (Source.ofMembers ms) (g x?) =
      within (o.admits (Json.depthMembers ms)) c) :
    readFields fields o (Source.ofMembers (memberIfAny name encode x? ++ ms)) a =
      within (o.admits (Json.depthMembers (memberIfAny name encode x? ++ ms))) c := by
  cases x? with
  | none => exact hnone ▸ hrest
  | some x => exact readFields_ofMembers hfield hseen (hsome x rfl) hrest

/-- The kind of a node is found wherever it stands. -/
theorem readKind_append_cons (o : Origin) {k : Kind} {name : String}
    (hk : Kind.read o (.string (some name)) = .ok k) {before after : List (String × Json)}
    (hbefore : ∀ m ∈ before, m.1 ≠ "kind") (hafter : ∀ m ∈ after, m.1 ≠ "kind") :
    readKind o (Source.ofMembers (before ++ ("kind", .str name) :: after)) none =
      within (o.admits (Json.depthMembers (before ++ ("kind", .str name) :: after))) (some k) := by
  induction before with
  | nil => exact readKind_cons o hk hafter
  | cons m before ih =>
    obtain ⟨hm, htail⟩ := List.forall_mem_cons.1 hbefore
    obtain ⟨other, j⟩ := m
    rw [List.cons_append, Source.ofMembers, readKind, Json.depthMembers, Origin.admits_max]
    simp only [readName, bind, Except.bind, if_neg hm]
    exact setAside_ofJson o j ▸ within_bind _ (ih htail)

/-- Members of a rule among which there is no id are set aside. -/
theorem readRuleId_append (o : Origin) {found id : Option String} {ms rest : List (String × Json)}
    (hms : ∀ m ∈ ms, m.1 ≠ "id")
    (hrest : readRuleId o (Source.ofMembers rest) found = within (o.admits (Json.depthMembers rest)) id) :
    readRuleId o (Source.ofMembers (ms ++ rest)) found =
      within (o.admits (Json.depthMembers (ms ++ rest))) id := by
  induction ms with
  | nil => exact hrest
  | cons m ms ih =>
    obtain ⟨hm, htail⟩ := List.forall_mem_cons.1 hms
    obtain ⟨other, j⟩ := m
    rw [List.cons_append, Source.ofMembers, readRuleId, Json.depthMembers, Origin.admits_max]
    simp only [readName, bind, Except.bind, if_neg hm]
    exact setAside_ofJson o j ▸ within_bind _ (ih htail)

/-- The id of a rule is found wherever it stands. -/
theorem readRuleId_append_cons (o : Origin) (id : String) {before after : List (String × Json)}
    (hbefore : ∀ m ∈ before, m.1 ≠ "id") (hafter : ∀ m ∈ after, m.1 ≠ "id") :
    readRuleId o (Source.ofMembers (before ++ ("id", .str id) :: after)) none =
      within (o.admits (Json.depthMembers (before ++ ("id", .str id) :: after))) (some id) := by
  have hend : readRuleId o (Source.ofMembers []) (some id) = within (o.admits (Json.depthMembers [])) (some id) := by
    simp [Source.ofMembers, readRuleId, Json.depthMembers]
  have hrest := readRuleId_append o hafter hend
  rw [List.append_nil] at hrest
  refine readRuleId_append o hbefore ?_
  have hdepth : (Json.str id).depth = 0 := rfl
  rw [Source.ofMembers, readRuleId, Json.depthMembers, hdepth, Nat.zero_max]
  simp only [readName, bind, Except.bind, if_true, Option.isSome_none, Bool.false_eq_true, if_false, readString,
    Source.ofJson]
  exact hrest

/-! ### Members in order -/

theorem memberIfAny_sublist {α : Type} (name : String) (encode : α → Json) (x? : Option α) :
    ((memberIfAny name encode x?).map Prod.fst).Sublist [name] := by
  cases x? <;> simp [memberIfAny]

theorem sorted_memberIfAny {α : Type} (name : String) {encode : α → Json} {x? : Option α}
    (h : ∀ x ∈ x?, (encode x).sorted = encode x) : ∀ m ∈ memberIfAny name encode x?, m.2.sorted = m.2 := by
  cases x? with
  | none => simp [memberIfAny]
  | some x => simpa [memberIfAny] using h x rfl

variable {ι : Type} [Mark ι]

/-- The members of a rule in increasing order of names, with its kind if it is told. -/
def Rule.membersInOrder (kind? : Option String) (r : Rule ι) : List (String × Json) :=
  ("component", .str r.component) :: ("field", .str r.field) ::
    (Mark.members r.id ++ (memberIfAny "kind" .str kind? ++ (memberIfAny "meta" .obj r.extra ++
      [("op", .str r.op), ("value", r.value)])))

/-- The members of a group in increasing order of names, with its kind if it is told. -/
def Node.groupMembersInOrder (kind? : Option String) (i : ι) (c : Combinator) (cs : List (Node ι)) :
    List (String × Json) :=
  ("children", .arr (Json.sortedItems (Node.encodeAll cs))) :: ("combinator", .str c.name) ::
    (Mark.members i ++ memberIfAny "kind" .str kind?)

/-- A mark of which nothing is told since there is no other, or that is told by an id. -/
def Mark.Told (i : ι) : Prop :=
  (Mark.fixed = some i ∧ Mark.members i = []) ∨
    ((Mark.fixed : Option ι) = none ∧ ∃ name, Mark.ofId name = i ∧ Mark.members i = [("id", .str name)])

theorem Mark.told_string (i : String) : Mark.Told i := .inr ⟨rfl, i, rfl, rfl⟩

theorem Mark.told_unit (i : Unit) : Mark.Told i := .inl ⟨rfl, rfl⟩

/-- What is told of a mark is the text of an id. -/
theorem Mark.Told.of_mem {i : ι} (h : Mark.Told i) :
    ∀ m ∈ Mark.members i, m.1 = "id" ∧ ∃ s, m.2 = .str s := by
  rcases h with ⟨-, hm⟩ | ⟨-, name, -, hm⟩ <;> simp [hm]

theorem Mark.Told.sorted {i : ι} (h : Mark.Told i) : ∀ m ∈ Mark.members i, m.2.sorted = m.2 := by
  intro m hm
  obtain ⟨-, s, hs⟩ := h.of_mem m hm
  rw [hs, Json.sorted_str]

theorem Mark.Told.sublist {i : ι} (h : Mark.Told i) : ((Mark.members i).map Prod.fst).Sublist ["id"] := by
  rcases h with ⟨-, hm⟩ | ⟨-, name, -, hm⟩ <;> simp [hm]

/-! ### Rules -/

namespace Rule

/-- What an editor keeps with a rule is told if there is any. -/
theorem members_eq (r : Rule ι) : r.members = Mark.members r.id ++ [("field", .str r.field), ("op", .str r.op),
    ("value", r.value), ("component", .str r.component)] ++ memberIfAny "meta" .obj r.extra := by
  rw [members]
  cases r.extra <;> rfl

theorem perm_membersInOrder (r : Rule ι) (kind? : Option String) :
    (memberIfAny "kind" .str kind? ++ (Mark.members r.id ++ [("field", .str r.field), ("op", .str r.op),
      ("value", r.value), ("component", .str r.component)] ++ memberIfAny "meta" .obj r.extra)).Perm
      (r.membersInOrder kind?) := by
  rw [membersInOrder, ← Multiset.coe_eq_coe]
  simp only [← Multiset.coe_add, ← Multiset.cons_coe, ← Multiset.singleton_add, Multiset.coe_nil]
  abel

theorem increasing_membersInOrder (r : Rule ι) (kind? : Option String) (hmark : Mark.Told r.id) :
    Keyed.Increasing (r.membersInOrder kind?) := by
  have hnames : (["component", "field"] ++ (["id"] ++ (["kind"] ++ (["meta"] ++ ["op", "value"])))).Pairwise
      (· < ·) := by decide
  refine Keyed.increasing_of_sublist hnames ?_
  simp only [membersInOrder, List.map_cons, List.map_append, List.map_nil]
  exact (List.Sublist.refl ["component", "field"]).append (hmark.sublist.append ((memberIfAny_sublist _ _ _).append
    ((memberIfAny_sublist _ _ _).append (List.Sublist.refl ["op", "value"]))))

/-- The values in a rule are in order, whatever is told of the rule. -/
theorem sorted_of_mem_members {r : Rule ι} (hr : r.Ordered) (kind? : Option String) (hmark : Mark.Told r.id) :
    ∀ m ∈ memberIfAny "kind" .str kind? ++ r.members, m.2.sorted = m.2 := by
  rw [r.members_eq]
  simp only [List.forall_mem_append, List.forall_mem_cons]
  exact ⟨sorted_memberIfAny "kind" fun _ _ => Json.sorted_str _,
    ⟨hmark.sorted, Json.sorted_str _, Json.sorted_str _, hr.value, Json.sorted_str _, by simp⟩,
    sorted_memberIfAny "meta" hr.extra⟩

/-- A rule as a value has its members in order, and the values in it are as they were. -/
theorem sorted_members {r : Rule ι} (hr : r.Ordered) (kind? : Option String) (hmark : Mark.Told r.id) :
    (Json.obj (memberIfAny "kind" .str kind? ++ r.members)).sorted = .obj (r.membersInOrder kind?) := by
  refine Json.sorted_obj_of_perm (r.increasing_membersInOrder kind? hmark) ?_
  rw [Json.sortedMembers_eq_self (sorted_of_mem_members hr kind? hmark), r.members_eq]
  exact r.perm_membersInOrder kind?

/-- The members of a rule decode to its parts, but for the id. -/
theorem readFields_membersInOrder (o : Origin) {r : Rule ι} (hr : r.Ordered) (kind? : Option String)
    (hmark : Mark.Told r.id) :
    readFields RuleParts.fields o (Source.ofMembers (r.membersInOrder kind?)) {} =
      within (o.admits (Json.depthMembers (r.membersInOrder kind?)))
        ⟨some r.field, some r.op, some r.value, some r.component, r.extra.map some⟩ := by
  have hvalue := readJson_of_sorted o hr.value
  have hextra : ∀ ms ∈ r.extra, readOption (readObject o) (Source.ofJson (.obj ms)) =
      within (o.admits (Json.obj ms).depth) (some ms) := fun ms hms =>
    readOption_ofJson (by simp) (readObject_of_sorted o (hr.extra ms hms))
  refine readFields_ofMembers rfl rfl (bind_pure_within (readString_ofJson o r.component)) ?_
  refine readFields_ofMembers rfl rfl (bind_pure_within (readString_ofJson o r.field)) ?_
  refine readFields_unknown (fun m hm => ⟨?_, (hmark.of_mem m hm).2⟩) ?_
  · rw [(hmark.of_mem m hm).1]
    rfl
  refine readFields_unknown (fun m hm => ?_) ?_
  · cases kind? with
    | none => cases hm
    | some name =>
      rw [List.mem_singleton.1 hm]
      exact ⟨rfl, name, rfl⟩
  refine readFields_memberIfAny (g := fun x? => ⟨some r.field, none, none, some r.component, x?.map some⟩)
    rfl rfl rfl (fun ms hms => bind_pure_within (hextra ms hms)) ?_
  refine readFields_ofMembers rfl rfl (bind_pure_within (readString_ofJson o r.op)) ?_
  refine readFields_ofMembers rfl rfl (bind_pure_within hvalue) ?_
  simp [Source.ofMembers, readFields, Json.depthMembers]

end Rule

/-- The rule of all its parts. -/
theorem RuleParts.finish_eq_ok {κ : Type} (missing : String → DecodeError) (r : Rule κ) :
    finish missing ⟨some r.field, some r.op, some r.value, some r.component, r.extra.map some⟩ =
      .ok (r.mapId fun _ => ()) := by
  obtain ⟨id, field, op, value, component, extra⟩ := r
  cases extra <;> rfl

/-- A draft of a rule decodes to itself where there is room for it. -/
theorem readDraftRule_membersInOrder (kind? : Option String) (o : Origin) {r : Rule Unit} (hr : r.Ordered) :
    readDraftRule o (Source.ofJson (.obj (r.membersInOrder kind?))) =
      within (o.admits (Json.obj (r.membersInOrder kind?)).depth) r := by
  rw [Source.ofJson, Json.depth]
  refine o.enter_bind fun o => ?_
  rw [Rule.readFields_membersInOrder o hr kind? (Mark.told_unit r.id)]
  exact within_bind_ok _ (RuleParts.finish_eq_ok .missingField r)

/-- A rule decodes to itself where there is room for it. -/
theorem readStoredRule_membersInOrder (kind? : Option String) (o : Origin) {r : Rule String} (hr : r.Ordered) :
    readStoredRule o (Source.ofJson (.obj (r.membersInOrder kind?))) =
      within (o.admits (Json.obj (r.membersInOrder kind?)).depth) r := by
  have hsplit : r.membersInOrder kind? = [("component", .str r.component), ("field", .str r.field)] ++
      ("id", .str r.id) :: (memberIfAny "kind" .str kind? ++ (memberIfAny "meta" .obj r.extra ++
        [("op", .str r.op), ("value", r.value)])) := rfl
  have hafter : ∀ m ∈ memberIfAny "kind" .str kind? ++ (memberIfAny "meta" .obj r.extra ++
      [("op", .str r.op), ("value", r.value)]), m.1 ≠ "id" := by
    cases kind? <;> cases r.extra <;> simp [memberIfAny]
  have hbefore : ∀ m ∈ [("component", Json.str r.component), ("field", .str r.field)], m.1 ≠ "id" := by simp
  have hparts := Rule.readFields_membersInOrder .buffered hr kind? (Mark.told_string r.id)
  rw [Source.ofJson, readStoredRule, Json.depth]
  refine o.enter_bind fun o => ?_
  rw [hsplit, readRuleId_append_cons o r.id hbefore hafter, ← hsplit]
  refine within_bind_ok _ ?_
  show (readFields RuleParts.fields .buffered _ _ >>= fun a => a.finish .missingField >>= fun r' =>
    pure (r'.mapId fun _ => r.id)) = _
  rw [hparts, Origin.admits_buffered, within_true]
  simp only [bind, Except.bind, RuleParts.finish_eq_ok]
  rfl

/-! ### What has been decoded of a rule -/

/-- What has been read of a rule is in order. -/
structure RuleParts.Ordered (a : RuleParts) : Prop where
  value : ∀ j ∈ a.value, j.sorted = j
  extra : ∀ ms, a.extra = some (some ms) → (Json.obj ms).sorted = .obj ms

theorem RuleParts.keeps_fields : ∀ f ∈ fields, f.Keeps Ordered := by
  simp only [fields, List.forall_mem_cons, List.not_mem_nil, false_imp_iff, implies_true, and_true]
  refine ⟨?field, ?op, ?value, ?component, ?extra⟩
  case value =>
    intro o s a b ha h
    obtain ⟨j, hj, ⟨⟩⟩ := bind_eq_ok.1 h
    refine ⟨?_, ha.extra⟩
    rintro _ ⟨⟩
    exact readJson_ensures o s j hj
  case extra =>
    intro o s a b ha h
    obtain ⟨ms?, hms, ⟨⟩⟩ := bind_eq_ok.1 h
    refine ⟨ha.value, ?_⟩
    rintro ms ⟨⟩
    exact readOption_ensures (fun s ms => readObject_ensures o s ms) hms ms rfl
  -- the other members are names
  all_goals
    intro o s a b ha h
    obtain ⟨name, -, ⟨⟩⟩ := bind_eq_ok.1 h
    exact ⟨ha.value, ha.extra⟩

/-- A value that is missing is in order, since the defaults are. -/
theorem Component.sorted_defaultValue (component : String) :
    (defaultValue component).sorted = defaultValue component := by
  unfold defaultValue
  split <;> rfl

theorem RuleParts.Ordered.finish {a : RuleParts} (ha : a.Ordered) {missing : String → DecodeError} {r : Rule Unit}
    (h : a.finish missing = .ok r) : r.Ordered := by
  obtain ⟨field, -, h⟩ := bind_eq_ok.1 h
  obtain ⟨op, -, h⟩ := bind_eq_ok.1 h
  obtain ⟨component, -, ⟨⟩⟩ := bind_eq_ok.1 h
  refine ⟨?_, fun ms hms => ha.extra ms (eq_some_of_getD_none hms)⟩
  show (a.value.getD _).sorted = a.value.getD _
  cases hv : a.value with
  | none => exact Component.sorted_defaultValue component
  | some j => exact ha.value j hv

theorem readDraftRule_ensures : Ensures readDraftRule Rule.Ordered :=
  readRecord_ensures (P := RuleParts.Ordered) ⟨by simp, by simp⟩ RuleParts.keeps_fields
    fun _ _ _ ha h => ha.finish h

theorem readStoredRule_ensures : Ensures readStoredRule Rule.Ordered := by
  intro o s r h
  cases s with
  | object members ending =>
    rw [readStoredRule] at h
    obtain ⟨o', -, h⟩ := bind_eq_ok.1 h
    obtain ⟨found, -, h⟩ := bind_eq_ok.1 h
    obtain ⟨_, -, h⟩ := bind_eq_ok.1 h
    obtain ⟨id, -, h⟩ := bind_eq_ok.1 h
    obtain ⟨a, ha, h⟩ := bind_eq_ok.1 h
    obtain ⟨draft, hdraft, ⟨⟩⟩ := bind_eq_ok.1 h
    have hparts := readFields_keeps RuleParts.keeps_fields .buffered members ⟨by simp, by simp⟩ ha
    obtain ⟨hvalue, hextra⟩ := hparts.finish hdraft
    exact ⟨hvalue, hextra⟩
  | _ => cases h

/-- Marks that are told or need not be, and rules of such marks that decode to themselves. -/
class LawfulMark (ι : Type) [Mark ι] : Prop where
  told (i : ι) : Mark.Told i
  readRule (kind? : Option String) (o : Origin) {r : Rule ι} (hr : r.Ordered) :
    Mark.readRule o (Source.ofJson (.obj (r.membersInOrder kind?))) =
      within (o.admits (Json.obj (r.membersInOrder kind?)).depth) r
  readRule_ensures : Ensures (Mark.readRule (ι := ι)) Rule.Ordered

instance : LawfulMark String := ⟨Mark.told_string, readStoredRule_membersInOrder, readStoredRule_ensures⟩

instance : LawfulMark Unit := ⟨Mark.told_unit, readDraftRule_membersInOrder, readDraftRule_ensures⟩

/-- A rule as a value decodes to the rule where there is room for it. -/
theorem Rule.read_sorted [LawfulMark ι] (o : Origin) {r : Rule ι} (hr : r.Ordered) :
    Mark.readRule o (Source.ofJson r.encode.sorted) = within (o.admits r.encode.sorted.depth) r := by
  have hsorted : r.encode.sorted = .obj (r.membersInOrder none) :=
    sorted_members hr none (LawfulMark.told r.id)
  rw [hsorted]
  exact LawfulMark.readRule none o hr

/-! ### Groups and nodes -/

/-- A group as a value has its members in order, and its children as values. -/
theorem Node.sorted_groupMembers (kind? : Option String) {i : ι} (hmark : Mark.Told i) (c : Combinator)
    (cs : List (Node ι)) :
    (Json.obj (memberIfAny "kind" .str kind? ++ (Mark.members i ++
      [("combinator", .str c.name), ("children", .arr (encodeAll cs))]))).sorted =
      .obj (groupMembersInOrder kind? i c cs) := by
  have hnames : (["children", "combinator"] ++ (["id"] ++ ["kind"])).Pairwise (· < ·) := by decide
  have horder : Keyed.Increasing (groupMembersInOrder kind? i c cs) := by
    refine Keyed.increasing_of_sublist hnames ?_
    simp only [groupMembersInOrder, List.map_cons, List.map_append]
    exact (List.Sublist.refl ["children", "combinator"]).append (hmark.sublist.append (memberIfAny_sublist _ _ _))
  have hid := Json.sortedMembers_eq_self hmark.sorted
  have hkind := Json.sortedMembers_eq_self (sorted_memberIfAny "kind" fun (name : String) (_ : name ∈ kind?) =>
    Json.sorted_str name)
  refine Json.sorted_obj_of_perm horder ?_
  simp only [Json.sortedMembers_append, hid, hkind, Json.sortedMembers, Json.sorted]
  rw [groupMembersInOrder, ← Multiset.coe_eq_coe]
  simp only [← Multiset.coe_add, ← Multiset.cons_coe, ← Multiset.singleton_add, Multiset.coe_nil]
  abel

/-- The members of a group decode to its parts if the children decode. -/
theorem readGroupMembers_inOrder (o : Origin) (kind? : Option String) {i : ι} (hmark : Mark.Told i)
    (c : Combinator) {cs : List (Node ι)} {room : Bool}
    (hcs : readChildren o (Source.ofJson (.arr (Json.sortedItems (Node.encodeAll cs)))) = within room cs) :
    readGroupMembers o (Source.ofMembers (Node.groupMembersInOrder kind? i c cs)) .start =
      within room ⟨some i, some c, some cs⟩ := by
  have hstr : ∀ s : String, Source.ofJson (.str s) = .string (some s) := fun _ => rfl
  have hc : Combinator.read (.string (some c.name)) = .ok c := by
    simp only [Combinator.read, readString, Except.map, Combinator.ofName_name]
  -- the kind is passed over, and the id is read if there is one
  have hend : ∀ a : GroupParts ι,
      readGroupMembers o (Source.ofMembers (memberIfAny "kind" .str kind?)) a = .ok a := by
    intro a
    cases kind? <;> simp [memberIfAny, Source.ofMembers, hstr, readGroupMembers, readName, skip, bind, Except.bind]
  have hid : readGroupMembers o (Source.ofMembers (Mark.members i ++ memberIfAny "kind" .str kind?))
      { (GroupParts.start : GroupParts ι) with combinator := some c, children := some cs } =
        .ok ⟨some i, some c, some cs⟩ := by
    rcases hmark with ⟨hfixed, hm⟩ | ⟨hfixed, name, hname, hm⟩
    · rw [hm, List.nil_append, hend, GroupParts.start, hfixed]
    · simp [hm, Source.ofMembers, hstr, readGroupMembers, readName, readString, GroupParts.start, hfixed, hname,
        hend, bind, Except.bind]
  rw [Node.groupMembersInOrder, Source.ofMembers, Source.ofMembers, readGroupMembers]
  show (readChildren o _ >>= fun cs =>
    readGroupMembers o _ { (GroupParts.start : GroupParts ι) with children := some cs }) = _
  rw [hcs]
  refine within_bind_ok room ?_
  rw [readGroupMembers]
  show (Combinator.read (.string (some c.name)) >>= fun c =>
    readGroupMembers o _ { (GroupParts.start : GroupParts ι) with combinator := some c, children := some cs }) = _
  rw [hc]
  exact hid

/-- Among the members of a rule, put in order, the kind stands once. -/
theorem Rule.readKind_membersInOrder (o : Origin) {r : Rule ι} (hmark : Mark.Told r.id) :
    readKind o (Source.ofMembers (r.membersInOrder (some "rule"))) none =
      within (o.admits (Json.depthMembers (r.membersInOrder (some "rule")))) (some .rule) := by
  have hsplit : r.membersInOrder (some "rule") =
      (("component", .str r.component) :: ("field", .str r.field) :: Mark.members r.id) ++
        ("kind", .str "rule") :: (memberIfAny "meta" .obj r.extra ++ [("op", .str r.op), ("value", r.value)]) := rfl
  have hbefore : ∀ m ∈ ("component", Json.str r.component) :: ("field", .str r.field) :: Mark.members r.id,
      m.1 ≠ "kind" := by
    simp only [List.forall_mem_cons]
    refine ⟨by decide, by decide, fun m hm => ?_⟩
    rw [(hmark.of_mem m hm).1]
    decide
  have hafter : ∀ m ∈ memberIfAny "meta" .obj r.extra ++ [("op", .str r.op), ("value", r.value)],
      m.1 ≠ "kind" := by
    cases r.extra <;> simp [memberIfAny]
  rw [hsplit]
  exact readKind_append_cons o rfl hbefore hafter

/-- Among the members of a group, put in order, the kind stands last. -/
theorem Node.readKind_groupMembersInOrder (o : Origin) {i : ι} (hmark : Mark.Told i) (c : Combinator)
    (cs : List (Node ι)) :
    readKind o (Source.ofMembers (groupMembersInOrder (some "group") i c cs)) none =
      within (o.admits (Json.depthMembers (groupMembersInOrder (some "group") i c cs))) (some .group) := by
  have hbefore : ∀ m ∈ ("children", Json.arr (Json.sortedItems (encodeAll cs))) :: ("combinator", .str c.name) ::
      Mark.members i, m.1 ≠ "kind" := by
    simp only [List.forall_mem_cons]
    refine ⟨by decide, by decide, fun m hm => ?_⟩
    rw [(hmark.of_mem m hm).1]
    decide
  exact readKind_append_cons o rfl hbefore (by simp)

mutual

/-- A node as a value decodes to the node where there is room for it. -/
theorem Node.read_sorted [LawfulMark ι] : ∀ (o : Origin) (n : Node ι), n.Ordered →
    Node.read o (Source.ofJson n.encode.sorted) = within (o.admits n.encode.sorted.depth) n
  | o, .rule r, h => by
    have hr := h r List.mem_cons_self
    have hsorted : (Node.rule r).encode.sorted = .obj (r.membersInOrder (some "rule")) :=
      Rule.sorted_members hr (some "rule") (LawfulMark.told r.id)
    have hrule := LawfulMark.readRule (some "rule") .buffered hr
    rw [Origin.admits_buffered, within_true] at hrule
    rw [hsorted, Source.ofJson, Node.read, Json.depth]
    refine o.enter_bind fun o => ?_
    rw [Rule.readKind_membersInOrder o (LawfulMark.told r.id)]
    refine within_bind_ok _ ?_
    show (Mark.readRule .buffered (Source.ofJson (.obj (r.membersInOrder (some "rule"))))).map Node.rule = _
    rw [hrule]
    rfl
  | o, .group i c cs, h => by
    have hsorted : (Node.group i c cs).encode.sorted = .obj (groupMembersInOrder (some "group") i c cs) :=
      sorted_groupMembers (some "group") (LawfulMark.told i) c cs
    -- the children have been let in with the whole node, and have room then
    have hcs := readChildren_ofJson .buffered fun o => Node.readAll_sorted o cs fun r hr =>
      h r (List.mem_cons_of_mem _ hr)
    have hgroup := readGroupMembers_inOrder .buffered (some "group") (LawfulMark.told i) c hcs
    rw [Origin.admits_buffered, within_true] at hgroup
    rw [hsorted, Source.ofJson, Node.read, Json.depth]
    refine o.enter_bind fun o => ?_
    rw [Node.readKind_groupMembersInOrder o (LawfulMark.told i) c cs]
    refine within_bind_ok _ ?_
    show (readGroupMembers .buffered _ _ >>= fun a => a.finish .missingField >>= fun g => _) = _
    rw [hgroup]
    rfl

/-- A row of nodes as values decodes to the nodes where there is room for them. -/
theorem Node.readAll_sorted [LawfulMark ι] : ∀ (o : Origin) (ns : List (Node ι)),
    (∀ r, Node.rule r ∈ Node.walkAll ns → r.Ordered) →
    Node.readAll o (Source.ofItems (Json.sortedItems (Node.encodeAll ns))) =
      within (o.admits (Json.depthItems (Json.sortedItems (Node.encodeAll ns)))) ns
  | o, [], _ => by
    simp [Node.encodeAll, Json.sortedItems, Source.ofItems, Node.readAll, Json.depthItems]
  | o, n :: ns, h => by
    rw [Node.encodeAll, Json.sortedItems, Source.ofItems, Node.readAll, Json.depthItems, Origin.admits_max,
      Node.read_sorted o n fun r hr => h r (List.mem_append_left _ hr),
      Node.readAll_sorted o ns fun r hr => h r (List.mem_append_right _ hr)]
    exact within_bind _ (within_bind_ok _ rfl)

end

/-- A tree as a value decodes to the tree where there is room for it. -/
theorem Group.read_sorted [LawfulMark ι] (o : Origin) {g : Group ι} (h : g.Ordered) :
    Group.read o (Source.ofJson g.encode.sorted) = within (o.admits g.encode.sorted.depth) g := by
  have hsorted : g.encode.sorted = .obj (Node.groupMembersInOrder none g.id g.combinator g.children) :=
    Node.sorted_groupMembers none (LawfulMark.told g.id) g.combinator g.children
  have hcs := fun o => readChildren_ofJson o fun o => Node.readAll_sorted o g.children fun r hr =>
    h r (List.mem_cons_of_mem _ hr)
  -- no member is nested deeper than the children
  have hdepth : Json.depthMembers (Node.groupMembersInOrder none g.id g.combinator g.children) =
      (Json.arr (Json.sortedItems (Node.encodeAll g.children))).depth := by
    rcases LawfulMark.told g.id with ⟨-, hm⟩ | ⟨-, name, -, hm⟩
    · simp [Node.groupMembersInOrder, hm, memberIfAny, Json.depthMembers, Json.depth]
    · simp [Node.groupMembersInOrder, hm, memberIfAny, Json.depthMembers, Json.depth]
  rw [hsorted, Source.ofJson, Group.read, Json.depth]
  refine o.enter_bind fun o => ?_
  rw [readGroupMembers_inOrder o none (LawfulMark.told g.id) g.combinator (hcs o), hdepth]
  exact within_bind_ok _ rfl

/-! ### What has been decoded of a tree -/

theorem GroupParts.Ordered.start : (GroupParts.start : GroupParts ι).Ordered := by
  rintro cs ⟨⟩

mutual

/-- A node that has been decoded holds ordered values. -/
theorem Node.ordered_of_read [LawfulMark ι] : ∀ (o : Origin) (s : Source) {n : Node ι},
    Node.read o s = .ok n → n.Ordered
  | o, .object members ending, n, h => by
    rw [Node.read] at h
    obtain ⟨o', -, h⟩ := bind_eq_ok.1 h
    obtain ⟨found, -, h⟩ := bind_eq_ok.1 h
    obtain ⟨_, -, h⟩ := bind_eq_ok.1 h
    obtain ⟨k, -, h⟩ := bind_eq_ok.1 h
    cases k with
    | rule =>
      obtain ⟨r, hr, rfl⟩ := map_eq_ok.1 h
      exact Node.ordered_rule (LawfulMark.readRule_ensures _ _ r hr)
    | group =>
      obtain ⟨a, ha, h⟩ := bind_eq_ok.1 h
      obtain ⟨g, hg, ⟨⟩⟩ := bind_eq_ok.1 h
      exact (ordered_of_readGroupMembers .buffered members .start ha).finish hg
  | o, .array [] ending, n, h => by
    rw [Node.read] at h
    obtain ⟨o', -, h⟩ := bind_eq_ok.1 h
    obtain ⟨_, -, ⟨⟩⟩ := bind_eq_ok.1 h
  | o, .array (tag :: rest) ending, n, h => by
    rw [Node.read] at h
    obtain ⟨o', -, h⟩ := bind_eq_ok.1 h
    obtain ⟨k, -, h⟩ := bind_eq_ok.1 h
    obtain ⟨_, -, h⟩ := bind_eq_ok.1 h
    obtain ⟨_, -, h⟩ := bind_eq_ok.1 h
    cases k with
    | rule =>
      obtain ⟨r, hr, rfl⟩ := map_eq_ok.1 h
      exact Node.ordered_rule (LawfulMark.readRule_ensures _ _ r hr)
    | group =>
      obtain ⟨⟨a, left⟩, ha, h⟩ := bind_eq_ok.1 h
      obtain ⟨_, -, h⟩ := bind_eq_ok.1 h
      obtain ⟨g, hg, ⟨⟩⟩ := bind_eq_ok.1 h
      exact (ordered_of_readGroupItems .buffered _ rest .start ha).finish hg
  | o, .null, n, h => by cases h
  | o, .bool _, n, h => by cases h
  | o, .number _, n, h => by cases h
  | o, .string _, n, h => by cases h
  | o, .broken _, n, h => by cases h

theorem Node.ordered_of_readAll [LawfulMark ι] : ∀ (o : Origin) (ss : List Source) {ns : List (Node ι)},
    Node.readAll o ss = .ok ns → ∀ n ∈ ns, n.Ordered
  | o, [], ns, h => by
    cases h
    simp
  | o, s :: ss, ns, h => by
    rw [Node.readAll] at h
    obtain ⟨n, hn, h⟩ := bind_eq_ok.1 h
    obtain ⟨ns', hns, ⟨⟩⟩ := bind_eq_ok.1 h
    exact List.forall_mem_cons.2 ⟨Node.ordered_of_read o s hn, Node.ordered_of_readAll o ss hns⟩

theorem ordered_of_readChildren [LawfulMark ι] : ∀ (o : Origin) (s : Source) {cs : List (Node ι)},
    readChildren o s = .ok cs → ∀ n ∈ cs, n.Ordered
  | o, .array items ending, cs, h => by
    rw [readChildren] at h
    obtain ⟨o', -, h⟩ := bind_eq_ok.1 h
    obtain ⟨ns, hns, h⟩ := bind_eq_ok.1 h
    obtain ⟨_, -, ⟨⟩⟩ := bind_eq_ok.1 h
    exact Node.ordered_of_readAll o' items hns
  | o, .object _ _, cs, h => by cases h
  | o, .null, cs, h => by cases h
  | o, .bool _, cs, h => by cases h
  | o, .number _, cs, h => by cases h
  | o, .string _, cs, h => by cases h
  | o, .broken _, cs, h => by cases h

theorem ordered_of_readGroupMembers [LawfulMark ι] : ∀ (o : Origin) (members : List (Option String × Source))
    {a b : GroupParts ι}, a.Ordered → readGroupMembers o members a = .ok b → b.Ordered
  | o, [], a, b, ha, h => by
    cases h
    exact ha
  | o, (name, s) :: ss, a, b, ha, h => by
    rw [readGroupMembers] at h
    obtain ⟨k, -, h⟩ := bind_eq_ok.1 h
    split at h
    · split at h
      · cases h
      · obtain ⟨i, -, h⟩ := bind_eq_ok.1 h
        refine ordered_of_readGroupMembers o ss ?_ h
        exact ha
    · split at h
      · split at h
        · cases h
        · obtain ⟨c, -, h⟩ := bind_eq_ok.1 h
          refine ordered_of_readGroupMembers o ss ?_ h
          exact ha
      · split at h
        · split at h
          · cases h
          · obtain ⟨cs, hcs, h⟩ := bind_eq_ok.1 h
            refine ordered_of_readGroupMembers o ss ?_ h
            rintro _ ⟨⟩
            exact ordered_of_readChildren o s hcs
        · obtain ⟨_, -, h⟩ := bind_eq_ok.1 h
          exact ordered_of_readGroupMembers o ss ha h

theorem ordered_of_readGroupItems [LawfulMark ι] : ∀ (o : Origin) (place : Nat) (items : List Source)
    {a : GroupParts ι} {b : GroupParts ι × Option (List Source)}, a.Ordered →
    readGroupItems o place items a = .ok b → b.1.Ordered
  | o, place, [], a, b, ha, h => by
    cases h
    exact ha
  | o, 0, s :: ss, a, b, ha, h => by
    rw [readGroupItems] at h
    obtain ⟨i, -, h⟩ := bind_eq_ok.1 h
    refine ordered_of_readGroupItems o 1 ss ?_ h
    exact ha
  | o, 1, s :: ss, a, b, ha, h => by
    rw [readGroupItems] at h
    obtain ⟨c, -, h⟩ := bind_eq_ok.1 h
    refine ordered_of_readGroupItems o 2 ss ?_ h
    exact ha
  | o, 2, s :: ss, a, b, ha, h => by
    rw [readGroupItems] at h
    obtain ⟨cs, hcs, h⟩ := bind_eq_ok.1 h
    refine ordered_of_readGroupItems o 3 ss ?_ h
    rintro _ ⟨⟩
    exact ordered_of_readChildren o s hcs
  | o, _ + 3, s :: ss, a, b, ha, h => by
    cases h
    exact ha

end

theorem Node.read_ensures [LawfulMark ι] : Ensures (Node.read (ι := ι)) Node.Ordered :=
  fun o s _ h => Node.ordered_of_read o s h

/-- A tree that has been decoded holds ordered values. -/
theorem Group.read_ensures [LawfulMark ι] : Ensures (Group.read (ι := ι)) Group.Ordered := by
  intro o s g h
  cases s with
  | object members ending =>
    obtain ⟨o', -, h⟩ := bind_eq_ok.1 h
    obtain ⟨a, ha, h⟩ := bind_eq_ok.1 h
    obtain ⟨_, -, h⟩ := bind_eq_ok.1 h
    exact (ordered_of_readGroupMembers o' members .start ha).finish h
  | array items ending =>
    obtain ⟨o', -, h⟩ := bind_eq_ok.1 h
    obtain ⟨⟨a, left⟩, ha, h⟩ := bind_eq_ok.1 h
    obtain ⟨_, -, h⟩ := bind_eq_ok.1 h
    exact (ordered_of_readGroupItems o' _ items .start ha).finish h
  | _ => cases h

end Sieve
