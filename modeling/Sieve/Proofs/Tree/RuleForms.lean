import Mathlib.Tactic.MkIffOfInductiveProp
import Sieve.Proofs.Json.Members
import Sieve.Proofs.Tree.Survival

/-!
# The forms of a rule

A rule is decoded from an object on three ways: without an id, with its id looked for first, and as a node, of
which first the kind is looked for.  All of them set the members aside and come to read the same fields.

* `Rule.MadeOf`: what an object says of a rule, by the names of its members;
* `RuleParts.readFields_eq_ok_iff`, `readParts_eq_ok_iff`: the fields that are read from an object, which are the
  whole of what a rule is made from;
* `readDraftRule_obj`, `readStoredRule_obj`, `Node.read_obj_rule`: the three ways where there is room for the
  object, each told by what is read from a buffer;
* `Rule.forms_agree`: they lead to the same.
-/

namespace Sieve

open Decode

/-! ### Entering an object -/

/-- Where there is room for an object there is room for its members once it is entered. -/
theorem Origin.enter_of_admits {o : Origin} {d : Nat} (h : o.admits (d + 1) = true) :
    ∃ o', o.enter = .ok o' ∧ o'.admits d = true := by
  cases o with
  | text room =>
    cases room with
    | zero => simp [admits] at h
    | succ room => exact ⟨.text room, rfl, by simpa [admits] using h⟩
  | value => exact ⟨.value, rfl, rfl⟩
  | buffered => exact ⟨.buffered, rfl, rfl⟩

/-! ### The fields of a rule -/

/-- The names of the members that tell a mark. -/
def Mark.names (ι : Type) [Mark ι] : List String := if (Mark.fixed : Option ι).isNone then ["id"] else []

/-- The names of the members of a rule. -/
def RuleParts.names (ι : Type) [Mark ι] : List String :=
  Mark.names ι ++ ["field", "op", "value", "component", "meta"]

/-- What a member says that is an object or null. -/
def Json.ObjectOrNull : Json → Option (List (String × Json)) → Prop
  | .null, more => more = none
  | .obj ms, more => more = some (Keyed.ofList (Json.sortedMembers ms))
  | _, _ => False

/-- An object says of a rule what is told by the names of its members.  A value that is not told is the default
of the component, and a value that is told stays, null as any other.  A `meta` that is not told is null. -/
@[mk_iff]
structure Rule.MadeOf {ι : Type} (ms : List (String × Json)) (r : Rule ι) : Prop where
  field : Keyed.lookup "field" ms = some (.str r.field)
  op : Keyed.lookup "op" ms = some (.str r.op)
  component : Keyed.lookup "component" ms = some (.str r.component)
  value : r.value = ((Keyed.lookup "value" ms).map Json.sorted).getD (Component.defaultValue r.component)
  extra : ((Keyed.lookup "meta" ms).getD .null).ObjectOrNull r.extra

namespace RuleParts

/-- The parts that a rule is read in, one for each of its fields. -/
def parts : List (RecordPart RuleParts) :=
  [⟨"field", _, fun _ => readString, (·.field), fun s a => { a with field := some s }⟩,
   ⟨"op", _, fun _ => readString, (·.op), fun s a => { a with op := some s }⟩,
   ⟨"value", _, readJson, (·.value), fun v a => { a with value := some v }⟩,
   ⟨"component", _, fun _ => readString, (·.component), fun s a => { a with component := some s }⟩,
   ⟨"meta", _, fun o => readOption (readObject o), (·.extra), fun x a => { a with extra := some x }⟩]

theorem whole_parts : RecordPart.Whole parts fun _ => () where
  names := by decide
  get_put := by simp [parts]
  get_put_of_ne := by simp [parts]
  rest_put := by simp
  ext a b _ h := by
    obtain ⟨_, _, _, _, _⟩ := a
    simp only [parts, List.forall_mem_cons] at h
    obtain ⟨rfl, rfl, rfl, rfl, rfl, -⟩ := h
    rfl

theorem once_of_names {ι : Type} [Mark ι] {ms : List (String × Json)} (once : ∀ name ∈ names ι, Keyed.Once name ms) :
    ∀ p ∈ parts, Keyed.Once p.name ms :=
  fun p hp => once p.name (List.mem_append_right _ (List.mem_map_of_mem (f := RecordPart.name) hp))

/-- The fields of a rule, each read from the member of its name. -/
theorem readFields_eq_ok_iff {o : Origin} {ms : List (String × Json)} (once : ∀ p ∈ parts, Keyed.Once p.name ms)
    {a b : RuleParts} (hfresh : Fresh fields a ms) : readFields fields o (Source.ofMembers ms) a = .ok b ↔
      Takes readString (Keyed.lookup "field" ms) a.field b.field ∧
      Takes readString (Keyed.lookup "op" ms) a.op b.op ∧
      Takes (readJson o) (Keyed.lookup "value" ms) a.value b.value ∧
      Takes readString (Keyed.lookup "component" ms) a.component b.component ∧
      Takes (readOption (readObject o)) (Keyed.lookup "meta" ms) a.extra b.extra := by
  refine (readFields_parts_eq_ok_iff whole_parts once hfresh).trans ?_
  simp only [parts, List.forall_mem_cons, List.not_mem_nil, true_and, and_true, false_imp_iff, implies_true]

/-- What is needed of the fields, and what stands for those that are missing. -/
theorem finish_eq_ok_iff {missing : String → DecodeError} {a : RuleParts} {d : Rule Unit} :
    a.finish missing = .ok d ↔ a.field = some d.field ∧ a.op = some d.op ∧ a.component = some d.component ∧
      d.value = a.value.getD (Component.defaultValue d.component) ∧ d.extra = a.extra.getD none := by
  constructor
  · intro h
    obtain ⟨field, hfield, h⟩ := bind_eq_ok.1 h
    obtain ⟨op, hop, h⟩ := bind_eq_ok.1 h
    obtain ⟨component, hcomponent, ⟨⟩⟩ := bind_eq_ok.1 h
    exact ⟨eq_some_of_required hfield, eq_some_of_required hop, eq_some_of_required hcomponent, rfl, rfl⟩
  · rintro ⟨hfield, hop, hcomponent, hvalue, hextra⟩
    rw [finish, hfield, hop, hcomponent]
    show Except.ok _ = Except.ok d
    rw [← hvalue, ← hextra]

end RuleParts

theorem takes_readJson_iff {j? x : Option Json} :
    Takes (readJson .buffered) j? none x ↔ x = j?.map Json.sorted := by
  cases j? with
  | none => exact takes_none
  | some j => simp [takes_some, readJson_ofJson]

theorem readOption_readObject_eq_ok_iff {j : Json} {more : Option (List (String × Json))} :
    readOption (readObject .buffered) (Source.ofJson j) = .ok more ↔ j.ObjectOrNull more := by
  cases j with
  | null => simp [Source.ofJson, readOption, Json.ObjectOrNull, eq_comm]
  | obj ms =>
    have hread := readOption_ofJson (by simp) (readObject_ofJson .buffered ms)
    rw [Origin.admits_buffered, within_true] at hread
    rw [hread, Json.ObjectOrNull, Except.ok.injEq, eq_comm]
  | _ => simp [Source.ofJson, readOption, readObject, mismatch, Except.map, Json.ObjectOrNull]

theorem takes_readOption_readObject_iff {j? : Option Json} {more : Option (List (String × Json))} :
    (∃ x, Takes (readOption (readObject .buffered)) j? none x ∧ more = x.getD none) ↔
      (j?.getD .null).ObjectOrNull more := by
  cases j? with
  | none => simp [takes_none, Json.ObjectOrNull]
  | some j => simp [takes_some, readOption_readObject_eq_ok_iff]

/-- What is read from a buffer for a rule is what the object says of it. -/
theorem readParts_eq_ok_iff {ms : List (String × Json)} (once : ∀ p ∈ RuleParts.parts, Keyed.Once p.name ms)
    {d : Rule Unit} :
    (readFields RuleParts.fields .buffered (Source.ofMembers ms) {} >>= RuleParts.finish .missingField) = .ok d ↔
      d.MadeOf ms := by
  have hfresh : Fresh RuleParts.fields {} ms := fresh_of_not_seen (by simp [RuleParts.fields]) ms
  rw [bind_eq_ok]
  constructor
  · rintro ⟨a, ha, hd⟩
    obtain ⟨hfield, hop, hvalue, hcomponent, hextra⟩ := (RuleParts.readFields_eq_ok_iff once hfresh).1 ha
    obtain ⟨dfield, dop, dcomponent, dvalue, dextra⟩ := RuleParts.finish_eq_ok_iff.1 hd
    rw [dfield, takes_readString_iff] at hfield
    rw [dop, takes_readString_iff] at hop
    rw [dcomponent, takes_readString_iff] at hcomponent
    rw [takes_readJson_iff.1 hvalue] at dvalue
    exact ⟨hfield, hop, hcomponent, dvalue, takes_readOption_readObject_iff.1 ⟨_, hextra, dextra⟩⟩
  · intro h
    obtain ⟨x, hextra, dextra⟩ := takes_readOption_readObject_iff.2 h.extra
    refine ⟨⟨some d.field, some d.op, (Keyed.lookup "value" ms).map Json.sorted, some d.component, x⟩,
      (RuleParts.readFields_eq_ok_iff once hfresh).2 ⟨takes_readString_iff.2 h.field,
        takes_readString_iff.2 h.op, takes_readJson_iff.2 rfl, takes_readString_iff.2 h.component, hextra⟩,
      RuleParts.finish_eq_ok_iff.2 ⟨rfl, rfl, rfl, h.value, dextra⟩⟩

/-- The id of a rule is read from a record of one field. -/
theorem readRuleId_eq_readFields {o : Origin} {ms : List (String × Json)}
    (hroom : o.admits (Json.depthMembers ms) = true) (found : Option String) :
    readRuleId o (Source.ofMembers ms) found =
      readFields [soleField "id" fun _ => readString] .buffered (Source.ofMembers ms) found := by
  refine Eq.trans ?_ (readFields_soleField_congr (o := o) (fun _ _ => rfl) hroom)
  refine eq_readFields_soleField (fun _ => rfl) (fun k s ss x => ?_) hroom
  rw [readRuleId]
  rfl

/-! ### Three ways to decode a rule -/

section

variable {o : Origin} {ms before after : List (String × Json)}

/-- An object is decoded as from a buffer where there is room for it. -/
theorem readObject_eq_buffered {j : Json} (hj : o.admits j.depth = true) :
    readObject o (Source.ofJson j) = readObject .buffered (Source.ofJson j) := by
  cases j with
  | obj ms => rw [readObject_ofJson, readObject_ofJson, hj, Origin.admits_buffered]
  | _ => rfl

/-- So are the parts of a rule. -/
theorem RuleParts.read_eq_buffered : ∀ p ∈ parts, ∀ j, o.admits j.depth = true →
    p.read o (Source.ofJson j) = p.read .buffered (Source.ofJson j) := by
  intro p hp j hj
  simp only [parts, List.mem_cons, List.not_mem_nil, or_false] at hp
  obtain rfl | rfl | rfl | rfl | rfl := hp
  · rfl
  · rfl
  · show readJson o _ = readJson .buffered _
    rw [readJson_ofJson, readJson_ofJson, hj, Origin.admits_buffered]
  · rfl
  · show readOption (readObject o) _ = readOption (readObject .buffered) _
    cases j with
    | null => rfl
    | _ => exact congrArg (Except.map some) (readObject_eq_buffered hj)

/-- A draft is read from its members. -/
theorem readDraftRule_obj (hroom : o.admits (Json.obj ms).depth = true) :
    readDraftRule o (Source.ofJson (.obj ms)) =
      (readFields RuleParts.fields .buffered (Source.ofMembers ms) {} >>= RuleParts.finish .missingField) := by
  rw [Json.depth] at hroom
  obtain ⟨o', henter, hroom'⟩ := Origin.enter_of_admits hroom
  rw [Source.ofJson, readDraftRule, readRecord, henter]
  exact congrArg (· >>= RuleParts.finish .missingField)
    (readFields_parts_congr RuleParts.read_eq_buffered hroom')

/-- A rule is read from its members, once the id has been found among them. -/
theorem readStoredRule_obj (hroom : o.admits (Json.obj ms).depth = true) :
    readStoredRule o (Source.ofJson (.obj ms)) = (do
      let found ← readFields [soleField "id" fun _ => readString] .buffered (Source.ofMembers ms) none
      let id ← required .missingField "id" found
      let d ← readFields RuleParts.fields .buffered (Source.ofMembers ms) {} >>= RuleParts.finish .missingField
      return d.mapId fun _ => id) := by
  rw [Json.depth] at hroom
  obtain ⟨o', henter, hroom'⟩ := Origin.enter_of_admits hroom
  rw [Source.ofJson, readStoredRule, henter, ← readRuleId_eq_readFields hroom']
  simp only [bind_assoc]
  rfl

/-- A node that says it is a rule is decoded as a rule from a buffer. -/
theorem Node.read_obj_rule {ι : Type} [Mark ι] (hbefore : ∀ m ∈ before, m.1 ≠ "kind")
    (hafter : ∀ m ∈ after, m.1 ≠ "kind")
    (hroom : o.admits (Json.obj (before ++ ("kind", .str "rule") :: after)).depth = true) :
    Node.read o (Source.ofJson (.obj (before ++ ("kind", .str "rule") :: after))) =
      (Mark.readRule .buffered (Source.ofJson (.obj (before ++ ("kind", .str "rule") :: after)))).map
        (Node.rule (ι := ι)) := by
  rw [Json.depth] at hroom
  obtain ⟨o', henter, hroom'⟩ := Origin.enter_of_admits hroom
  have hkind := readKind_append_cons o' (show Kind.read o' (.string (some "rule")) = .ok .rule from rfl) hbefore hafter
  rw [within_of_eq_true hroom'] at hkind
  rw [Source.ofJson, Node.read, henter]
  show (readKind o' _ none >>= _) = _
  rw [hkind]
  rfl

end

/-- The kind says nothing to a draft. -/
theorem readDraftRule_append_kind {o : Origin} {before after : List (String × Json)} {j : Json}
    (hroom : o.admits (Json.obj (before ++ after)).depth = true) :
    readDraftRule .buffered (Source.ofJson (.obj (before ++ ("kind", j) :: after))) =
      readDraftRule o (Source.ofJson (.obj (before ++ after))) := by
  rw [readDraftRule_obj (Origin.admits_buffered _), readDraftRule_obj hroom, readFields_append_unknown rfl]

/-- Nor does it to a rule. -/
theorem readStoredRule_append_kind {o : Origin} {before after : List (String × Json)} {j : Json}
    (hroom : o.admits (Json.obj (before ++ after)).depth = true) :
    readStoredRule .buffered (Source.ofJson (.obj (before ++ ("kind", j) :: after))) =
      readStoredRule o (Source.ofJson (.obj (before ++ after))) := by
  rw [readStoredRule_obj (Origin.admits_buffered _), readStoredRule_obj hroom, readFields_append_unknown rfl,
    readFields_append_unknown rfl]

/-- A rule is the draft of the same object with the id that the object says. -/
theorem readStoredRule_eq_ok_iff {o : Origin} {ms : List (String × Json)} (once : Keyed.Once "id" ms)
    (hroom : o.admits (Json.obj ms).depth = true) {r : Rule String} :
    readStoredRule o (Source.ofJson (.obj ms)) = .ok r ↔
      ∃ id d, Keyed.lookup "id" ms = some (.str id) ∧ readDraftRule o (Source.ofJson (.obj ms)) = .ok d ∧
        r = d.mapId fun _ => id := by
  have hfresh : Fresh [soleField "id" fun _ => readString] none ms :=
    fresh_of_not_seen (List.forall_mem_singleton.2 rfl) ms
  rw [readStoredRule_obj hroom, readDraftRule_obj hroom]
  constructor
  · intro h
    obtain ⟨found, hfound, h⟩ := bind_eq_ok.1 h
    obtain ⟨id, hid, h⟩ := bind_eq_ok.1 h
    obtain ⟨d, hd, ⟨⟩⟩ := bind_eq_ok.1 h
    rw [readFields_soleField_eq_ok_iff once hfresh, eq_some_of_required hid, takes_readString_iff] at hfound
    exact ⟨id, d, hfound, hd, rfl⟩
  · rintro ⟨id, d, hid, hd, rfl⟩
    have hfound := (readFields_soleField_eq_ok_iff (o := .buffered) once hfresh).2 (takes_readString_iff.2 hid)
    rw [hfound]
    exact bind_eq_ok.2 ⟨some id, rfl, bind_eq_ok.2 ⟨id, rfl, bind_eq_ok.2 ⟨d, hd, rfl⟩⟩⟩

/-- **An object that says no kind, and no other name of a rule twice, is decoded to the same rule on three ways,
wherever it comes from if there is room for it.**

* With its id it is a rule just if it says an id, which is a string, and without it a draft; and the rule is the
  draft with that id.
* If it also says that it is a rule, at any place among its members, it is decoded as a node to just this rule
  or this draft, or fails as that does.
* The draft is made of what the members say; a value that is missing is the default of the component, and a
  value that is null stays null. -/
theorem Rule.forms_agree {o : Origin} {ms : List (String × Json)}
    (once : ∀ name ∈ RuleParts.names String, Keyed.Once name ms)
    (hkind : ∀ m ∈ ms, m.1 ≠ "kind") (hroom : o.admits (Json.obj ms).depth = true) :
    (∀ r, readStoredRule o (Source.ofJson (.obj ms)) = .ok r ↔
      ∃ id d, Keyed.lookup "id" ms = some (.str id) ∧ readDraftRule o (Source.ofJson (.obj ms)) = .ok d ∧
        r = ⟨id, d.field, d.op, d.value, d.component, d.extra⟩) ∧
    (∀ before after, ms = before ++ after →
      Node.read o (Source.ofJson (.obj (before ++ ("kind", .str "rule") :: after))) =
        (readStoredRule o (Source.ofJson (.obj ms))).map Node.rule ∧
      Node.read o (Source.ofJson (.obj (before ++ ("kind", .str "rule") :: after))) =
        (readDraftRule o (Source.ofJson (.obj ms))).map Node.rule) ∧
    ∀ d, readDraftRule o (Source.ofJson (.obj ms)) = .ok d ↔ d.MadeOf ms := by
  refine ⟨fun r => readStoredRule_eq_ok_iff (once "id" List.mem_cons_self) hroom, ?_, fun d => ?_⟩
  · rintro before after rfl
    have hbefore : ∀ m ∈ before, m.1 ≠ "kind" := fun m hm => hkind m (List.mem_append_left _ hm)
    have hafter : ∀ m ∈ after, m.1 ≠ "kind" := fun m hm => hkind m (List.mem_append_right _ hm)
    have hroom' : o.admits (Json.obj (before ++ ("kind", .str "rule") :: after)).depth = true := by
      have hstr : (Json.str "rule").depth = 0 := rfl
      rwa [Json.depth, Json.depthMembers_append_cons, hstr, Nat.zero_max]
    rw [Node.read_obj_rule hbefore hafter hroom', Node.read_obj_rule hbefore hafter hroom']
    exact ⟨congrArg _ (readStoredRule_append_kind hroom), congrArg _ (readDraftRule_append_kind hroom)⟩
  · rw [readDraftRule_obj hroom, readParts_eq_ok_iff (RuleParts.once_of_names once)]

/-- An object that says no value for a multiple choice, and may say another member. -/
def tagChoice (more : List (String × Json)) : List (String × Json) :=
  [("component", .str "multiselect"), ("field", .str "tags"), ("id", .str "r"), ("op", .str "in")] ++ more

/-- A choice that is missing is the empty one in a rule, and one that is null stays null in a draft. -/
theorem Rule.forms_agree_tagChoice :
    Decode.ofJson Node.read (.obj (("kind", .str "rule") :: tagChoice [])) =
      .ok (.rule ⟨"r", "tags", "in", .arr [], "multiselect", none⟩) ∧
    Decode.ofJson Node.read (.obj (tagChoice [("kind", .str "rule"), ("value", .null)])) =
      .ok (.rule ⟨(), "tags", "in", .null, "multiselect", none⟩) := by
  obtain ⟨hrule, hnode, hdraft⟩ := Rule.forms_agree (o := .value)
    (show ∀ name ∈ RuleParts.names String, Keyed.Once name (tagChoice []) by decide) (by decide) rfl
  obtain ⟨-, hnode', hdraft'⟩ := Rule.forms_agree (o := .value)
    (show ∀ name ∈ RuleParts.names String, Keyed.Once name (tagChoice [("value", .null)]) by decide) (by decide) rfl
  have hmissing := (hdraft ⟨(), "tags", "in", .arr [], "multiselect", none⟩).2 ⟨rfl, rfl, rfl, rfl, rfl⟩
  have hstored := (hrule ⟨"r", "tags", "in", .arr [], "multiselect", none⟩).2 ⟨"r", _, rfl, hmissing, rfl⟩
  have hnull := (hdraft' ⟨(), "tags", "in", .null, "multiselect", none⟩).2 ⟨rfl, rfl, rfl, rfl, rfl⟩
  refine ⟨(hnode [] (tagChoice []) rfl).1.trans ?_, (hnode' (tagChoice []) [("value", .null)] rfl).2.trans ?_⟩
  · rw [hstored]
    rfl
  · rw [hnull]
    rfl

end Sieve
