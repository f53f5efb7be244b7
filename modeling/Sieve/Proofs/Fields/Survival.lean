import Sieve.Proofs.Tree.Survival

/-!
# Configured fields as values

Options, configured fields and configurations decode to themselves from their values, and what has been decoded
of them is in order.

* `FieldConfig.membersInOrder`, `FilterConfig.membersInOrder`: the members as they stand in a value, where a
  member that has nothing in it is left out;
* `FieldOption.Ordered`, `FieldConfig.Ordered`, `FilterConfig.Ordered`: what holds ordered values.  The table
  of a configuration is a mapping as well;
* `Survives`: values that decode to themselves, and whatever decodes to them;
* `survives_asValue`: all that is written as JSON survives.
-/

namespace Sieve

open Decode

theorem readNames_ofJson (o : Origin) (ss : List String) :
    readNames o (Source.ofJson (Json.strings ss)) = within (o.admits (Json.strings ss).depth) ss :=
  readList_ofJson o fun o s _ => readString_ofJson o s

theorem Json.sorted_strings (ss : List String) : (strings ss).sorted = strings ss := by
  have hitems : sortedItems (ss.map str) = ss.map str :=
    sortedItems_eq_self fun x hx => by
      obtain ⟨s, -, rfl⟩ := List.mem_map.1 hx
      exact sorted_str s
  rw [strings, sorted, hitems]

/-! ### Options -/

namespace FieldOption

/-- The value that an option stands for is in order. -/
def Ordered (x : FieldOption) : Prop := x.value.sorted = x.value

theorem sorted_encode {x : FieldOption} (h : x.Ordered) : x.encode.sorted = x.encode := by
  have horder : Keyed.Increasing [("label", Json.str x.label), ("value", x.value)] :=
    Keyed.increasing_of_sublist (by decide : ["label", "value"].Pairwise (· < ·)) (List.Sublist.refl _)
  refine Json.sorted_obj_eq_self horder ?_
  simp only [List.forall_mem_cons]
  exact ⟨Json.sorted_str x.label, h, by simp⟩

/-- An option decodes to itself where there is room for it. -/
theorem read_ofJson (o : Origin) {x : FieldOption} (h : x.Ordered) :
    read o (Source.ofJson x.encode) = within (o.admits x.encode.depth) x := by
  rw [encode, Source.ofJson, Json.depth]
  refine o.enter_bind fun o => ?_
  refine bind_eq_within (a := ⟨some x.label, some x.value⟩) ?_ rfl
  refine readFields_ofMembers rfl rfl (bind_pure_within (readString_ofJson o x.label)) ?_
  refine readFields_ofMembers rfl rfl (bind_pure_within (readJson_of_sorted o h)) ?_
  simp [Source.ofMembers, readFields, Json.depthMembers]

theorem read_ensures : Ensures read Ordered := by
  refine readRecord_ensures (P := fun a => ∀ j ∈ a.value, j.sorted = j) (by simp) ?_ ?_
  · simp only [OptionParts.fields, List.forall_mem_cons, List.not_mem_nil, false_imp_iff, implies_true, and_true]
    constructor
    · intro o s a b ha h
      obtain ⟨label, -, ⟨⟩⟩ := bind_eq_ok.1 h
      exact ha
    · intro o s a b ha h
      obtain ⟨j, hj, ⟨⟩⟩ := bind_eq_ok.1 h
      rintro _ ⟨⟩
      exact readJson_ensures o s j hj
  · intro missing a x ha h
    obtain ⟨label, -, h⟩ := bind_eq_ok.1 h
    obtain ⟨value, hvalue, ⟨⟩⟩ := bind_eq_ok.1 h
    exact ha value (eq_some_of_required hvalue)

end FieldOption

/-! ### Configured fields -/

theorem getD_none_map_some {α : Type} (x? : Option α) : (x?.map some).getD none = x? := by
  cases x? <;> rfl

namespace FieldConfig

/-- The values of the options and what an editor keeps with the field are in order. -/
structure Ordered (f : FieldConfig) : Prop where
  options : ∀ xs ∈ f.options, ∀ x ∈ xs, x.Ordered
  extra : ∀ ms ∈ f.extra, (Json.obj ms).sorted = .obj ms

/-- The members of a configured field in increasing order of names. -/
def membersInOrder (f : FieldConfig) : List (String × Json) :=
  ("component", .str f.component) :: (memberIfAny "defaultOp" .str f.defaultOperator ++
    (("field", .str f.field) :: ("label", .str f.label) :: (memberIfAny "meta" .obj f.extra ++
      (memberIfAny "operations" Json.strings f.operators ++
        (memberIfAny "options" (fun xs => .arr (xs.map FieldOption.encode)) f.options ++ [])))))

/-- Options have their members in order, and so have arrays of them. -/
theorem sorted_options {xs : List FieldOption} (h : ∀ x ∈ xs, x.Ordered) :
    (Json.arr (xs.map FieldOption.encode)).sorted = .arr (xs.map FieldOption.encode) := by
  have hitems : Json.sortedItems (xs.map FieldOption.encode) = xs.map FieldOption.encode :=
    Json.sortedItems_eq_self fun j hj => by
      obtain ⟨x, hx, rfl⟩ := List.mem_map.1 hj
      exact FieldOption.sorted_encode (h x hx)
  rw [Json.sorted, hitems]

theorem increasing_membersInOrder (f : FieldConfig) : Keyed.Increasing f.membersInOrder := by
  have hnames : (["component"] ++ (["defaultOp"] ++ (["field", "label"] ++ (["meta"] ++ (["operations"] ++
      (["options"] ++ [])))))).Pairwise (· < ·) := by decide
  refine Keyed.increasing_of_sublist hnames ?_
  simp only [membersInOrder, List.map_cons, List.map_append, List.map_nil]
  exact (List.Sublist.refl ["component"]).append ((memberIfAny_sublist _ _ _).append
    ((List.Sublist.refl ["field", "label"]).append ((memberIfAny_sublist _ _ _).append
      ((memberIfAny_sublist _ _ _).append ((memberIfAny_sublist _ _ _).append (List.Sublist.refl []))))))

/-- A configured field as a value has its members in order, and the values in it are as they were. -/
theorem sorted_encode {f : FieldConfig} (h : f.Ordered) : f.encode.sorted = .obj f.membersInOrder := by
  obtain ⟨field, label, component, operators, options, defaultOperator, extra⟩ := f
  have hnames : ∀ m ∈ [("field", Json.str field), ("label", .str label), ("component", .str component)],
      m.2.sorted = m.2 := by simp
  have hoperators := sorted_memberIfAny "operations" fun (ss : List String) (_ : ss ∈ operators) =>
    Json.sorted_strings ss
  have hoptions := sorted_memberIfAny "options" fun xs (hxs : xs ∈ options) => sorted_options (h.options xs hxs)
  have hdefault := sorted_memberIfAny "defaultOp" fun (op : String) (_ : op ∈ defaultOperator) => Json.sorted_str op
  have hextra := sorted_memberIfAny "meta" h.extra
  refine Json.sorted_obj_of_perm (increasing_membersInOrder _) ?_
  rw [Json.sortedMembers_eq_self]
  · rw [membersInOrder, ← Multiset.coe_eq_coe]
    simp only [← Multiset.coe_add, ← Multiset.cons_coe, ← Multiset.singleton_add, Multiset.coe_nil]
    abel
  · simp only [List.forall_mem_append]
    exact ⟨⟨⟨⟨hnames, hoperators⟩, hoptions⟩, hdefault⟩, hextra⟩

/-- The members of a configured field decode to its parts. -/
theorem readFields_membersInOrder (o : Origin) {f : FieldConfig} (h : f.Ordered) :
    readFields FieldParts.fields o (Source.ofMembers f.membersInOrder) {} =
      within (o.admits (Json.depthMembers f.membersInOrder))
        ⟨some f.field, some f.label, some f.component, f.operators.map some, f.options.map some,
          f.defaultOperator.map some, f.extra.map some⟩ := by
  obtain ⟨field, label, component, operators, options, defaultOperator, extra⟩ := f
  have hname : ∀ s ∈ defaultOperator, readOption readString (Source.ofJson (.str s)) =
      within (o.admits (Json.str s).depth) (some s) := fun s _ =>
    readOption_ofJson (by simp) (readString_ofJson o s)
  have hextra : ∀ ms ∈ extra, readOption (readObject o) (Source.ofJson (.obj ms)) =
      within (o.admits (Json.obj ms).depth) (some ms) := fun ms hms =>
    readOption_ofJson (by simp) (readObject_of_sorted o (h.extra ms hms))
  have hoperators : ∀ ss ∈ operators, readOption (readNames o) (Source.ofJson (Json.strings ss)) =
      within (o.admits (Json.strings ss).depth) (some ss) := fun ss _ =>
    readOption_ofJson (by simp [Json.strings]) (readNames_ofJson o ss)
  have hoptions : ∀ xs ∈ options,
      readOption (readList FieldOption.read o) (Source.ofJson (.arr (xs.map FieldOption.encode))) =
        within (o.admits (Json.arr (xs.map FieldOption.encode)).depth) (some xs) := fun xs hxs =>
    readOption_ofJson (by simp) (readList_ofJson o fun o x hx => FieldOption.read_ofJson o (h.options xs hxs x hx))
  refine readFields_ofMembers rfl rfl (bind_pure_within (readString_ofJson o component)) ?_
  refine readFields_memberIfAny (g := fun x? => ⟨none, none, some component, none, none, x?.map some, none⟩)
    rfl rfl rfl (fun s hs => bind_pure_within (hname s hs)) ?_
  refine readFields_ofMembers rfl rfl (bind_pure_within (readString_ofJson o field)) ?_
  refine readFields_ofMembers rfl rfl (bind_pure_within (readString_ofJson o label)) ?_
  refine readFields_memberIfAny (g := fun x? => ⟨some field, some label, some component, none, none,
    defaultOperator.map some, x?.map some⟩) rfl rfl rfl (fun ms hms => bind_pure_within (hextra ms hms)) ?_
  refine readFields_memberIfAny (g := fun x? => ⟨some field, some label, some component, x?.map some, none,
    defaultOperator.map some, extra.map some⟩) rfl rfl rfl (fun ss hss => bind_pure_within (hoperators ss hss)) ?_
  refine readFields_memberIfAny (g := fun x? => ⟨some field, some label, some component, operators.map some,
    x?.map some, defaultOperator.map some, extra.map some⟩) rfl rfl rfl
    (fun xs hxs => bind_pure_within (hoptions xs hxs)) ?_
  simp [Source.ofMembers, readFields, Json.depthMembers]

/-- A configured field decodes to itself where there is room for it. -/
theorem read_sorted (o : Origin) {f : FieldConfig} (h : f.Ordered) :
    read o (Source.ofJson f.encode.sorted) = within (o.admits f.encode.sorted.depth) f := by
  rw [sorted_encode h, Source.ofJson, Json.depth]
  refine o.enter_bind fun o => ?_
  refine bind_eq_within (readFields_membersInOrder o h) ?_
  show Except.ok (⟨f.field, f.label, f.component, (f.operators.map some).getD none, (f.options.map some).getD none,
    (f.defaultOperator.map some).getD none, (f.extra.map some).getD none⟩ : FieldConfig) = .ok f
  simp only [getD_none_map_some]

end FieldConfig

/-- What has been read of a configured field is in order. -/
structure FieldParts.Ordered (a : FieldParts) : Prop where
  options : ∀ xs, a.options = some (some xs) → ∀ x ∈ xs, x.Ordered
  extra : ∀ ms, a.extra = some (some ms) → (Json.obj ms).sorted = .obj ms

theorem FieldParts.keeps_fields : ∀ f ∈ fields, f.Keeps Ordered := by
  simp only [fields, List.forall_mem_cons, List.not_mem_nil, false_imp_iff, implies_true, and_true]
  refine ⟨?field, ?label, ?component, ?operators, ?options, ?defaultOperator, ?extra⟩
  case options =>
    intro o s a b ha h
    obtain ⟨xs?, hxs, ⟨⟩⟩ := bind_eq_ok.1 h
    refine ⟨?_, ha.extra⟩
    rintro xs ⟨⟩
    exact readOption_ensures (fun s xs => readList_ensures FieldOption.read_ensures o s xs) hxs xs rfl
  case extra =>
    intro o s a b ha h
    obtain ⟨ms?, hms, ⟨⟩⟩ := bind_eq_ok.1 h
    refine ⟨ha.options, ?_⟩
    rintro ms ⟨⟩
    exact readOption_ensures (fun s ms => readObject_ensures o s ms) hms ms rfl
  -- the other members hold no values
  all_goals
    intro o s a b ha h
    obtain ⟨x, -, ⟨⟩⟩ := bind_eq_ok.1 h
    exact ⟨ha.options, ha.extra⟩

theorem FieldConfig.read_ensures : Ensures FieldConfig.read FieldConfig.Ordered := by
  refine readRecord_ensures (P := FieldParts.Ordered) ⟨by simp, by simp⟩ FieldParts.keeps_fields ?_
  intro missing a f ha h
  obtain ⟨field, -, h⟩ := bind_eq_ok.1 h
  obtain ⟨label, -, h⟩ := bind_eq_ok.1 h
  obtain ⟨component, -, ⟨⟩⟩ := bind_eq_ok.1 h
  exact ⟨fun xs hxs => ha.options xs (eq_some_of_getD_none hxs),
    fun ms hms => ha.extra ms (eq_some_of_getD_none hms)⟩

/-! ### Configurations -/

namespace FilterConfig

/-- The configured fields hold ordered values, and the table of operators is in increasing order of
components. -/
structure Ordered (c : FilterConfig) : Prop where
  fields : ∀ f ∈ c.fields, f.Ordered
  operators : ∀ table ∈ c.operators, Keyed.Increasing table

/-- A table of operators in JSON. -/
def tableToJson (table : List (String × List String)) : Json :=
  .obj (table.map fun x => (x.1, Json.strings x.2))

theorem sorted_tableToJson {table : List (String × List String)} (h : Keyed.Increasing table) :
    (tableToJson table).sorted = tableToJson table := by
  refine Json.sorted_obj_eq_self (List.pairwise_map.2 h) fun m hm => ?_
  obtain ⟨x, -, rfl⟩ := List.mem_map.1 hm
  exact Json.sorted_strings x.2

/-- The members of a configuration in increasing order of names. -/
def membersInOrder (c : FilterConfig) : List (String × Json) :=
  memberIfAny "defaultOperations" tableToJson c.operators ++
    [("fields", .arr (c.fields.map fun f => f.encode.sorted))]

theorem increasing_membersInOrder (c : FilterConfig) : Keyed.Increasing c.membersInOrder := by
  have hnames : (["defaultOperations"] ++ ["fields"]).Pairwise (· < ·) := by decide
  refine Keyed.increasing_of_sublist hnames ?_
  rw [membersInOrder, List.map_append]
  exact (memberIfAny_sublist _ _ _).append (List.Sublist.refl ["fields"])

theorem sorted_encode {c : FilterConfig} (h : c.Ordered) : c.encode.sorted = .obj c.membersInOrder := by
  obtain ⟨fields, operators⟩ := c
  have hfields : (Json.arr (fields.map FieldConfig.encode)).sorted =
      .arr (fields.map fun f => f.encode.sorted) := by
    rw [Json.sorted, Json.sortedItems_eq_map, List.map_map]
    rfl
  have htable := Json.sortedMembers_eq_self (sorted_memberIfAny "defaultOperations" fun table
    (ht : table ∈ operators) => sorted_tableToJson (h.operators table ht))
  have hencode : (⟨fields, operators⟩ : FilterConfig).encode =
      .obj (("fields", .arr (fields.map FieldConfig.encode)) ::
        memberIfAny "defaultOperations" tableToJson operators) := rfl
  rw [hencode]
  refine Json.sorted_obj_of_perm (increasing_membersInOrder _) ?_
  rw [Json.sortedMembers, hfields, htable, membersInOrder]
  exact (List.perm_append_singleton _ _).symm

/-- A configuration decodes to itself where there is room for it. -/
theorem read_sorted (o : Origin) {c : FilterConfig} (h : c.Ordered) :
    read o (Source.ofJson c.encode.sorted) = within (o.admits c.encode.sorted.depth) c := by
  obtain ⟨fields, operators⟩ := c
  rw [sorted_encode h, Source.ofJson, Json.depth]
  refine o.enter_bind fun o => ?_
  have htable : ∀ table ∈ operators,
      readOption (readMap readNames o) (Source.ofJson (tableToJson table)) =
        within (o.admits (tableToJson table).depth) (some table) := by
    intro table htable
    refine readOption_ofJson (by simp [tableToJson]) ?_
    rw [tableToJson, readMap_ofJson o fun o x _ => readNames_ofJson o x.2,
      Keyed.ofList_eq_self (h.operators table htable)]
  have hfields : readList FieldConfig.read o (Source.ofJson (.arr (fields.map fun f => f.encode.sorted))) =
      within (o.admits (Json.arr (fields.map fun f => f.encode.sorted)).depth) fields :=
    readList_ofJson o fun o f hf => FieldConfig.read_sorted o (h.fields f hf)
  refine bind_eq_within (a := ⟨some fields, operators.map some⟩) ?_ ?_
  · refine readFields_memberIfAny (g := fun x? => ⟨none, x?.map some⟩) rfl rfl rfl
      (fun table ht => bind_pure_within (htable table ht)) ?_
    refine readFields_ofMembers rfl rfl (bind_pure_within hfields) ?_
    simp [Source.ofMembers, readFields, Json.depthMembers]
  · show Except.ok (⟨fields, (operators.map some).getD none⟩ : FilterConfig) = _
    rw [getD_none_map_some]

theorem read_ensures : Ensures read Ordered := by
  refine readRecord_ensures (P := fun a => (∀ fs ∈ a.fields, ∀ f ∈ fs, f.Ordered) ∧
    ∀ table, a.operators = some (some table) → Keyed.Increasing table) (by simp) ?_ ?_
  · simp only [List.forall_mem_cons, List.not_mem_nil, false_imp_iff, implies_true, and_true]
    constructor
    · intro o s a b ha h
      obtain ⟨fs, hfs, ⟨⟩⟩ := bind_eq_ok.1 h
      refine ⟨?_, ha.2⟩
      rintro _ ⟨⟩
      exact readList_ensures FieldConfig.read_ensures o s fs hfs
    · intro o s a b ha h
      obtain ⟨table?, htable, ⟨⟩⟩ := bind_eq_ok.1 h
      refine ⟨ha.1, ?_⟩
      rintro table ⟨⟩
      exact readOption_ensures (fun s table => readMap_ensures readNames o s table) htable table rfl
  · rintro missing a c ⟨hfields, htable⟩ ⟨⟩
    refine ⟨?_, fun table ht => htable table (eq_some_of_getD_none ht)⟩
    show ∀ f ∈ a.fields.getD [], f.Ordered
    cases hfs : a.fields with
    | none => simp
    | some fs => exact hfields fs hfs

end FilterConfig

/-! ### There and back -/

/-- Values survive being written as a JSON value, the members of whose objects are in increasing order of
names. -/
structure Survives {α : Type} (encode : α → Json) (read : Decoder α) (Ordered : α → Prop) : Prop where
  /-- A value decodes to itself. -/
  back : ∀ a, Ordered a → Decode.ofJson read (encode a).sorted = .ok a
  /-- Whatever a value has been decoded from, written it decodes to the same again. -/
  again : ∀ j a, Decode.ofJson read j = .ok a → Decode.ofJson read (encode a).sorted = .ok a

theorem Survives.of_ensures {α : Type} {encode : α → Json} {read : Decoder α} {Ordered : α → Prop}
    (hread : ∀ o a, Ordered a →
      read o (Source.ofJson (encode a).sorted) = within (Origin.admits o (encode a).sorted.depth) a)
    (hensures : Ensures read Ordered) : Survives encode read Ordered where
  back := hread .value
  again j a h := hread .value a (hensures .value (Source.ofJson j) a h)

/-- **All that is written as JSON survives as a value: nodes, trees and rules, with ids and without, options,
configured fields and configurations.  Each decodes to itself, and what has been decoded from whatever value
decodes to the same once it has been written.** -/
theorem survives_asValue :
    Survives Node.encode Node.read (Node.Ordered (ι := String)) ∧
    Survives Group.encode Group.read (Group.Ordered (ι := String)) ∧
    Survives Rule.encode readStoredRule Rule.Ordered ∧
    Survives Node.encode Node.read (Node.Ordered (ι := Unit)) ∧
    Survives Group.encode Group.read (Group.Ordered (ι := Unit)) ∧
    Survives Rule.encode readDraftRule Rule.Ordered ∧
    Survives FieldOption.encode FieldOption.read FieldOption.Ordered ∧
    Survives FieldConfig.encode FieldConfig.read FieldConfig.Ordered ∧
    Survives FilterConfig.encode FilterConfig.read FilterConfig.Ordered := by
  have hoption : ∀ (o : Origin) (x : FieldOption), x.Ordered →
      FieldOption.read o (Source.ofJson x.encode.sorted) = within (o.admits x.encode.sorted.depth) x := by
    intro o x hx
    rw [FieldOption.sorted_encode hx]
    exact FieldOption.read_ofJson o hx
  refine ⟨?_, ?_, ?_, ?_, ?_, ?_, ?_, ?_, ?_⟩
  · exact .of_ensures Node.read_sorted Node.read_ensures
  · exact .of_ensures (fun o _ => Group.read_sorted o) Group.read_ensures
  · exact .of_ensures (fun o _ => Rule.read_sorted o) readStoredRule_ensures
  · exact .of_ensures Node.read_sorted Node.read_ensures
  · exact .of_ensures (fun o _ => Group.read_sorted o) Group.read_ensures
  · exact .of_ensures (fun o _ => Rule.read_sorted o) readDraftRule_ensures
  · exact .of_ensures hoption FieldOption.read_ensures
  · exact .of_ensures (fun o _ => FieldConfig.read_sorted o) FieldConfig.read_ensures
  · exact .of_ensures (fun o _ => FilterConfig.read_sorted o) FilterConfig.read_ensures

/-- A rule and a group in a group with a combinator of its own. -/
def mixedNode : Node String :=
  .group "g" (.ofName "xor")
    [.rule ⟨"r", "f", "in", .obj [("a", .null), ("b", .arr [])], Component.multiselect, some []⟩,
     .group "h" .or []]

/-- A rule without a value, and with null for what an editor keeps with it. -/
def shortRule : Json :=
  .obj [("op", .str "in"), ("meta", .null), ("component", .str "multiselect"), ("field", .str "f")]

/-- The node decodes to itself, and the rule to one with the value of its component, which decodes to itself
then. -/
theorem survives_asValue_mixedNode :
    Decode.ofJson Node.read mixedNode.encode.sorted = .ok mixedNode ∧
    ∃ r, r.value = .arr [] ∧ r.extra = none ∧ Decode.ofJson readDraftRule shortRule = .ok r ∧
      Decode.ofJson readDraftRule r.encode.sorted = .ok r := by
  have hrule : Decode.ofJson readDraftRule shortRule =
      .ok ⟨(), "f", "in", .arr [], Component.multiselect, none⟩ := rfl
  obtain ⟨hnode, -, -, -, -, hdraft, -⟩ := survives_asValue
  refine ⟨hnode.back mixedNode ?_, _, rfl, rfl, hrule, hdraft.again shortRule _ hrule⟩
  refine Node.ordered_group _ _ ?_
  simp only [List.forall_mem_cons, List.not_mem_nil, false_imp_iff, implies_true, and_true]
  exact ⟨Node.ordered_rule ⟨rfl, by rintro ms ⟨⟩; rfl⟩, Node.ordered_group _ _ (by simp)⟩

end Sieve
