import Sieve.Proofs.Tree.RoundTrip

/-!
# Patches read back

A patch says of each member of a node whether it is set and to what.  Written down, a member that is not
set is null.  That is read as not set again, except for the value of a rule, which null is a value of.

* `Decode.readOption_optional`: what may be missing decodes to itself, if null is none of its values;
* `RulePatch.written`: what a patch of a rule says once it has been written down;
* `RulePatch.read_ofJson`, `GroupPatch.read_ofJson`: what patches decode to;
* `patch_roundTrip`: a patch of a rule comes back with the same effect just where it sets the value, or the
  rule has none, and a patch of a group comes back as it was.
-/

namespace Sieve

open Decode

/-! ### Members that may be missing -/

namespace Decode

variable {α β : Type}

/-- A member that may be missing decodes to itself, if it does where it is there and is never null. -/
theorem readOption_optional {read : Source → Except DecodeError α} {encode : α → Json} {o : Origin}
    {a? : Option α} (hnull : ∀ a, encode a ≠ .null)
    (hread : ∀ a ∈ a?, read (Source.ofJson (encode a)) = within (o.admits (encode a).depth) a) :
    readOption read (Source.ofJson (optional encode a?)) =
      within (o.admits (optional encode a?).depth) a? := by
  cases a? with
  | none => simp [optional, Source.ofJson, readOption, Json.depth]
  | some a => exact readOption_ofJson (hnull a) (hread a rfl)

end Decode

/-! ### Patches of rules -/

namespace RulePatch

/-- The values in a patch have the members of their objects in increasing order of names. -/
structure Ordered (p : RulePatch) : Prop where
  value : ∀ j ∈ p.value, j.sorted = j
  extra : ∀ ms ∈ p.extra, (Json.obj ms).sorted = .obj ms

/-- A patch that sets the value, to null if nothing else was said of it. -/
def written (p : RulePatch) : RulePatch := { p with value := some (p.value.getD .null) }

/-- The members of a patch, in their order. -/
def members (p : RulePatch) : List (String × Json) :=
  [("field", optional .str p.field), ("op", optional .str p.op), ("value", optional id p.value),
    ("component", optional .str p.component), ("meta", optional .obj p.extra)]

theorem encode_eq (p : RulePatch) : p.encode = .obj p.members := rfl

/-- The members of a patch decode to what they say, with null for a value that is not set. -/
theorem readFields_members (o : Origin) {p : RulePatch} (hp : p.Ordered) :
    readFields PatchParts.fields o (Source.ofMembers p.members) {} =
      within (o.admits (Json.depthMembers p.members))
        ⟨some p.field, some p.op, some (p.value.getD .null), some p.component, some p.extra⟩ := by
  have hname : ∀ s? : Option String, readOption readString (Source.ofJson (optional .str s?)) =
      within (o.admits (optional .str s?).depth) s? := fun s? =>
    readOption_optional (by simp) fun s _ => readString_ofJson o s
  have hvalue : readJson o (Source.ofJson (optional id p.value)) =
      within (o.admits (optional id p.value).depth) (p.value.getD .null) := by
    rw [readJson_ofJson]
    cases hv : p.value with
    | none => rfl
    | some j => rw [optional, id, hp.value j hv, Option.getD_some]
  have hextra : readOption (readObject o) (Source.ofJson (optional .obj p.extra)) =
      within (o.admits (optional .obj p.extra).depth) p.extra := by
    exact readOption_optional (by simp) fun ms hms => readObject_of_sorted o (hp.extra ms hms)
  refine readFields_ofMembers rfl rfl (bind_pure_within (hname p.field)) ?_
  refine readFields_ofMembers rfl rfl (bind_pure_within (hname p.op)) ?_
  refine readFields_ofMembers rfl rfl (bind_pure_within hvalue) ?_
  refine readFields_ofMembers rfl rfl (bind_pure_within (hname p.component)) ?_
  refine readFields_ofMembers rfl rfl (bind_pure_within hextra) ?_
  simp [Source.ofMembers, readFields, Json.depthMembers]

theorem read_ofJson (o : Origin) {p : RulePatch} (hp : p.Ordered) :
    RulePatch.read o (Source.ofJson p.encode) = within (o.admits p.encode.depth) p.written := by
  rw [encode_eq, Source.ofJson, Json.depth]
  refine o.enter_bind fun o => ?_
  rw [readFields_members o hp]
  exact within_bind_ok _ rfl

/-- A patch that has been written down sets the value in any case, and nothing else besides what it set. -/
theorem apply_written {ι : Type} (p : RulePatch) (r : Rule ι) :
    p.written.apply r = { p.apply r with value := p.value.getD .null } := rfl

/-- Having been written down makes no difference to the effect of a patch that sets the value. -/
theorem apply_written_eq_iff {ι : Type} {p : RulePatch} {r : Rule ι} :
    p.written.apply r = p.apply r ↔ p.value.isSome = true ∨ r.value = .null := by
  rw [apply_written]
  cases hv : p.value with
  | some j => simp [apply, hv]
  | none => simp [apply, hv, eq_comm]

end RulePatch

/-! ### Patches of groups -/

theorem GroupPatch.read_ofJson (o : Origin) (p : GroupPatch) :
    GroupPatch.read o (Source.ofJson p.encode) = within (o.admits p.encode.depth) p := by
  have hname : ∀ o, readOption Combinator.read (Source.ofJson (optional (.str ·.name) p.combinator)) =
      within (Origin.admits o (optional (Json.str ·.name) p.combinator).depth) p.combinator := by
    intro o
    refine readOption_optional (by simp) fun c _ => ?_
    simp [Source.ofJson, Combinator.read, readString, Except.map, Combinator.ofName_name, Json.depth]
  rw [encode, Source.ofJson, Json.depth]
  refine o.enter_bind fun o => ?_
  rw [readFields_ofMembers rfl rfl (hname o ▸ map_within some _ _) (c := some p.combinator)]
  · exact within_bind_ok _ rfl
  · simp [Source.ofMembers, readFields, Json.depthMembers]

/-- A patch of a group holds no values. -/
theorem GroupPatch.numbers_encode (p : GroupPatch) : p.encode.numbers = [] := by
  obtain ⟨c⟩ := p
  cases c <;> rfl

theorem GroupPatch.depth_encode (p : GroupPatch) : p.encode.depth = 1 := by
  obtain ⟨c⟩ := p
  cases c <;> rfl

/-! ### There and back -/

/-- **A patch of a rule comes back with all that it sets, and with the value set to null if it does not set
it: so it has the same effect as before just on the rules without a value, or if it sets one.  A patch of
a group comes back as it was.** -/
theorem patch_roundTrip {p : RulePatch} (hp : p.Ordered) :
    Decode.ofJson RulePatch.read p.encode = .ok p.written ∧
    (∀ l : Json.Layout, l.Blank → (∀ x ∈ p.encode.numbers, x.ReadsBack) →
      Decode.ofText RulePatch.read (p.encode.render l) =
        if p.encode.depth ≤ maxDepth then .ok p.written else .error .malformed) ∧
    (∀ r : Rule String, p.written.apply r = { p.apply r with value := p.value.getD .null } ∧
      (p.written.apply r = p.apply r ↔ p.value.isSome = true ∨ r.value = .null)) ∧
    ∀ g : GroupPatch, Decode.ofJson GroupPatch.read g.encode = .ok g ∧
      ∀ l : Json.Layout, l.Blank → Decode.ofText GroupPatch.read (g.encode.render l) = .ok g := by
  refine ⟨RulePatch.read_ofJson .value hp, fun l hl hn => ?_, fun r => ?_, fun g => ⟨?_, fun l hl => ?_⟩⟩
  · exact Decode.ofText_render hl hn fun o => RulePatch.read_ofJson o hp
  · exact ⟨p.apply_written r, RulePatch.apply_written_eq_iff⟩
  · exact g.read_ofJson .value
  · have hn : ∀ x ∈ g.encode.numbers, x.ReadsBack := by simp [g.numbers_encode]
    have hd : g.encode.depth ≤ maxDepth := by
      rw [g.depth_encode]
      decide
    rw [Decode.ofText_render hl hn g.read_ofJson, if_pos hd]

/-- A patch that sets the value to a list, and what an editor keeps with the rule. -/
def listPatch : RulePatch :=
  { op := some "in", value := some (.arr [.null, .num (.integer 3 (by decide))]), extra := some [("note", .null)] }

/-- A rule with a value. -/
def fiveRule : Rule String := ⟨"r", "f", "eq", .num (.integer 5 (by decide)), Component.number, none⟩

theorem patch_roundTrip_listPatch :
    listPatch.Ordered ∧
      Decode.ofText RulePatch.read listPatch.encode.compact = .ok listPatch.written ∧
      listPatch.written.apply fiveRule = listPatch.apply fiveRule := by
  have hp : listPatch.Ordered := ⟨by rintro j ⟨⟩; rfl, by rintro ms ⟨⟩; rfl⟩
  have hnumbers : listPatch.encode.numbers = [.integer 3 (by decide)] := rfl
  have hn : ∀ x ∈ listPatch.encode.numbers, x.ReadsBack := by
    intro x hx
    rw [hnumbers, List.mem_singleton] at hx
    rw [hx]
    exact Number.readsBack_integer 3 _
  obtain ⟨-, htext, happly, -⟩ := patch_roundTrip hp
  exact ⟨hp, htext _ Json.Layout.blank_compact hn, (happly fiveRule).2.2 (.inl rfl)⟩

/-- A patch that sets the field alone. -/
def fieldPatch : RulePatch := { field := some "g" }

/-- The value of a rule gets lost on the way. -/
theorem patch_roundTrip_fieldPatch :
    ∃ p, Decode.ofJson RulePatch.read fieldPatch.encode = .ok p ∧ p.apply fiveRule ≠ fieldPatch.apply fiveRule ∧
      (fieldPatch.apply fiveRule).value = fiveRule.value ∧ (p.apply fiveRule).value = .null :=
  ⟨fieldPatch.written, rfl, fun h => (by cases congrArg Rule.value h), rfl, rfl⟩

end Sieve
