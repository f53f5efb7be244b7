import Mathlib.Data.List.Nodup
import Sieve.Proofs.Json.Ordered

/-!
# Members by name

An object tells something by the names of its members, and a record is decoded from it by these names alone.

* `Keyed.Once`: at most one member has the name;
* `Keyed.lookup_append_cons_of_ne`, `Keyed.Once.lookup_self`: what a further member changes;
* `Decode.skip_ofJson`: a value can always be passed over;
* `Decode.readFields_append_unknown`: a member whose name no field has may stand anywhere;
* `Decode.readFields_congr`: where there is room for a record its origin does not matter;
* `Decode.Takes`: a part of a record is what the member of its name decodes to, if there is one, or stays;
* `Decode.RecordPart`, `Decode.readFields_parts_eq_ok_iff`: so is every part of a record, by induction on the members;
* `Decode.soleField`: one member that is looked for while the others are passed over or set aside.
-/

namespace Sieve

/-! ### Looking a name up -/

namespace Keyed

variable {α : Type} {name : String} {v : α} {members before after : List (String × α)}

theorem lookup_append (name : String) (before after : List (String × α)) :
    lookup name (before ++ after) = (lookup name before).or (lookup name after) := by
  induction before with
  | nil => rfl
  | cons p before ih =>
    rw [List.cons_append, lookup, lookup, ih]
    split <;> rfl

theorem lookup_eq_none_iff : lookup name members = none ↔ ∀ p ∈ members, p.1 ≠ name := by
  rw [lookup_eq_find?, Option.map_eq_none_iff, List.find?_eq_none]
  exact forall₂_congr fun p _ => by rw [decide_eq_true_eq]

/-- A further member changes nothing about the other names. -/
theorem lookup_append_cons_of_ne {k : String} (h : k ≠ name) :
    lookup name (before ++ (k, v) :: after) = lookup name (before ++ after) := by
  rw [lookup_append, lookup_append, lookup, if_neg h]

/-- At most one member has the name. -/
def Once (name : String) (members : List (String × α)) : Prop := (members.map Prod.fst).count name ≤ 1

instance : Decidable (Once name members) := inferInstanceAs (Decidable ((members.map Prod.fst).count name ≤ 1))

theorem Once.sublist {members' : List (String × α)} (h : Once name members) (hsub : members'.Sublist members) :
    Once name members' :=
  Nat.le_trans ((hsub.map Prod.fst).count_le name) h

theorem Once.of_append_cons {p : String × α} (h : Once name (before ++ p :: after)) : Once name (before ++ after) :=
  h.sublist ((List.sublist_cons_self p after).append_left before)

theorem Once.put {k : String} {u : α} (h : Once name (before ++ (k, u) :: after)) (v : α) :
    Once name (before ++ (k, v) :: after) := by
  simpa only [Once, List.map_append, List.map_cons] using h

/-- A member that has its name alone is found, and nothing is found without it. -/
theorem Once.lookup_self (h : Once name (before ++ (name, v) :: after)) :
    lookup name (before ++ (name, v) :: after) = some v ∧ lookup name (before ++ after) = none := by
  rw [Once, List.map_append, List.map_cons, List.count_append, List.count_cons_self] at h
  have hnone : ∀ members : List (String × α), (members.map Prod.fst).count name = 0 → lookup name members = none :=
    fun members hcount => lookup_eq_none_iff.2 fun p hp hk =>
      List.count_eq_zero.1 hcount (List.mem_map.2 ⟨p, hp, hk⟩)
  rw [lookup_append, lookup_append, hnone before (by omega), hnone after (by omega), lookup, if_pos rfl]
  exact ⟨rfl, rfl⟩

/-- Where a name stands only once, its member is found. -/
theorem Once.lookup_of_mem (once : Once name members) (h : (name, v) ∈ members) : lookup name members = some v := by
  obtain ⟨before, after, rfl⟩ := List.append_of_mem h
  exact once.lookup_self.1

end Keyed

/-! ### Room for members -/

/-- Where a member stands has no part in the depth. -/
theorem Json.depthMembers_append_cons (before after : List (String × Json)) (k : String) (j : Json) :
    depthMembers (before ++ (k, j) :: after) = max j.depth (depthMembers (before ++ after)) := by
  induction before with
  | nil => rw [List.nil_append, List.nil_append, depthMembers]
  | cons m before ih =>
    obtain ⟨k', j'⟩ := m
    rw [List.cons_append, List.cons_append, depthMembers, depthMembers, ih, Nat.max_left_comm]

namespace Origin

variable {o : Origin}

theorem admits_depthMembers_cons {k : String} {j : Json} {ms : List (String × Json)} :
    o.admits (Json.depthMembers ((k, j) :: ms)) = true ↔
      o.admits j.depth = true ∧ o.admits (Json.depthMembers ms) = true := by
  rw [Json.depthMembers, admits_max, Bool.and_eq_true]

theorem admits_depthItems_iff {xs : List Json} :
    o.admits (Json.depthItems xs) = true ↔ ∀ x ∈ xs, o.admits x.depth = true := by
  induction xs with
  | nil => simp [Json.depthItems]
  | cons x xs ih => rw [Json.depthItems, admits_max, Bool.and_eq_true, ih, List.forall_mem_cons]

end Origin

namespace Decode

variable {α β : Type}

theorem within_of_eq_true {room : Bool} (h : room = true) (a : α) : within room a = .ok a := h ▸ within_true a

/-! ### Passing over -/

mutual

/-- A value is passed over without fail. -/
theorem skip_ofJson : ∀ j : Json, skip (Source.ofJson j) = .ok ()
  | .null => by rw [Source.ofJson, skip] <;> simp
  | .bool _ => by rw [Source.ofJson, skip] <;> simp
  | .num _ => by rw [Source.ofJson, skip] <;> simp
  | .str _ => by rw [Source.ofJson, skip] <;> simp
  | .arr xs => by
    rw [Source.ofJson, skip, skip_ofItems xs]
    rfl
  | .obj ms => by
    rw [Source.ofJson, skip, skip_ofMembers ms]
    rfl

theorem skip_ofItems : ∀ xs : List Json, skipItems (Source.ofItems xs) = .ok ()
  | [] => by rw [Source.ofItems, skipItems]
  | x :: xs => by
    rw [Source.ofItems, skipItems, skip_ofJson x]
    exact skip_ofItems xs

theorem skip_ofMembers : ∀ ms : List (String × Json), skipMembers (Source.ofMembers ms) = .ok ()
  | [] => by rw [Source.ofMembers, skipMembers]
  | (k, j) :: ms => by
    rw [Source.ofMembers, skipMembers, skip_ofJson j]
    exact skip_ofMembers ms

end

/-! ### The fields of a record -/

section

variable {fields : List (RecordField α)} {o : Origin} {name : String} {j : Json} {ms : List (String × Json)} {a : α}

theorem find?_name_eq_none (h : name ∉ fields.map RecordField.name) : fields.find? (·.name = name) = none := by
  rw [List.find?_eq_none]
  exact fun f hf hname => h (List.mem_map.2 ⟨f, hf, of_decide_eq_true hname⟩)

/-- A member whose name no field has is passed over. -/
theorem readFields_cons_unknown (h : fields.find? (·.name = name) = none) :
    readFields fields o (Source.ofMembers ((name, j) :: ms)) a = readFields fields o (Source.ofMembers ms) a := by
  rw [Source.ofMembers, readFields]
  simp only [readName, bind, Except.bind, h, skip_ofJson]

/-- A field that has not been read yet is read. -/
theorem readFields_cons_known {f : RecordField α} (h : fields.find? (·.name = name) = some f)
    (hseen : f.seen a = false) : readFields fields o (Source.ofMembers ((name, j) :: ms)) a =
      (f.read o (Source.ofJson j) a >>= readFields fields o (Source.ofMembers ms)) := by
  rw [Source.ofMembers, readFields]
  simp only [readName, bind, Except.bind, h, hseen, Bool.false_eq_true, if_false]

/-- A field that has not been read yet is decoded from its member and put into the record. -/
theorem readFields_cons_eq_ok_iff {γ : Type} {f : RecordField α} {read : Source → Except DecodeError γ} {b : α}
    (put : γ → α) (h : fields.find? (·.name = name) = some f) (hseen : f.seen a = false)
    (hread : ∀ s, f.read o s a = (do return put (← read s))) :
    readFields fields o (Source.ofMembers ((name, j) :: ms)) a = .ok b ↔
      ∃ v, read (Source.ofJson j) = .ok v ∧ readFields fields o (Source.ofMembers ms) (put v) = .ok b := by
  rw [readFields_cons_known h hseen, hread, bind_assoc, bind_eq_ok]
  rfl

/-- A field that has been read is refused. -/
theorem readFields_cons_seen {f : RecordField α} (h : fields.find? (·.name = name) = some f)
    (hseen : f.seen a = true) : readFields fields o (Source.ofMembers ((name, j) :: ms)) a =
      .error (.duplicateField name) := by
  rw [Source.ofMembers, readFields]
  simp only [readName, bind, Except.bind, h, hseen, if_true]

/-- No field of a name among the members has been read. -/
def Fresh (fields : List (RecordField α)) (a : α) (ms : List (String × Json)) : Prop :=
  ∀ m ∈ ms, ∀ f, fields.find? (·.name = m.1) = some f → f.seen a = false

theorem fresh_of_not_seen (h : ∀ f ∈ fields, f.seen a = false) (ms : List (String × Json)) : Fresh fields a ms :=
  fun _ _ f hf => h f (List.mem_of_find?_eq_some hf)

theorem Fresh.head {f : RecordField α} (h : Fresh fields a ((name, j) :: ms))
    (hf : fields.find? (·.name = name) = some f) : f.seen a = false :=
  h (name, j) List.mem_cons_self f hf

theorem Fresh.of_cons {m : String × Json} (h : Fresh fields a (m :: ms)) : Fresh fields a ms :=
  (List.forall_mem_cons.1 h).2

/-- A field that is read leaves the others as they are, and is not met again if its name is not. -/
theorem Fresh.tail {b : α} (h : Fresh fields a ((name, j) :: ms)) (hnone : Keyed.lookup name ms = none)
    (hb : ∀ f ∈ fields, f.name ≠ name → f.seen b = f.seen a) : Fresh fields b ms := by
  intro m hm f hf
  have hname : f.name = m.1 := by simpa using List.find?_some hf
  rw [hb f (List.mem_of_find?_eq_some hf) (hname ▸ Keyed.lookup_eq_none_iff.1 hnone m hm)]
  exact h.of_cons m hm f hf

/-- A member whose name no field has may stand anywhere. -/
theorem readFields_append_unknown {before after : List (String × Json)}
    (h : fields.find? (·.name = name) = none) :
    readFields fields o (Source.ofMembers (before ++ (name, j) :: after)) a =
      readFields fields o (Source.ofMembers (before ++ after)) a := by
  induction before generalizing a with
  | nil => exact readFields_cons_unknown h
  | cons m before ih =>
    obtain ⟨k, x⟩ := m
    rw [List.cons_append, List.cons_append]
    cases hk : fields.find? (·.name = k) with
    | none => rw [readFields_cons_unknown hk, readFields_cons_unknown hk, ih]
    | some f =>
      cases hseen : f.seen a with
      | true => rw [readFields_cons_seen hk hseen, readFields_cons_seen hk hseen]
      | false =>
        rw [readFields_cons_known hk hseen, readFields_cons_known hk hseen]
        exact bind_congr fun b => ih

/-- A record is decoded alike from two origins if there is room for it and its fields are. -/
theorem readFields_congr {o' : Origin}
    (hfields : ∀ f ∈ fields, ∀ j a, o.admits j.depth = true →
      f.read o (Source.ofJson j) a = f.read o' (Source.ofJson j) a)
    (hroom : o.admits (Json.depthMembers ms) = true) :
    readFields fields o (Source.ofMembers ms) a = readFields fields o' (Source.ofMembers ms) a := by
  induction ms generalizing a with
  | nil => rfl
  | cons m ms ih =>
    obtain ⟨k, j⟩ := m
    obtain ⟨hj, hms⟩ := Origin.admits_depthMembers_cons.1 hroom
    cases hk : fields.find? (·.name = k) with
    | none => rw [readFields_cons_unknown hk, readFields_cons_unknown hk, ih hms]
    | some f =>
      cases hseen : f.seen a with
      | true => rw [readFields_cons_seen hk hseen, readFields_cons_seen hk hseen]
      | false =>
        rw [readFields_cons_known hk hseen, readFields_cons_known hk hseen,
          hfields f (List.mem_of_find?_eq_some hk) j a hj]
        exact bind_congr fun b => ih hms

end

/-! ### The parts of a record -/

/-- A part of a record is read from a member if there is one, or stays. -/
def Takes (read : Source → Except DecodeError α) (j? : Option Json) (x y : Option α) : Prop :=
  match j? with
  | none => y = x
  | some j => ∃ v, read (Source.ofJson j) = .ok v ∧ y = some v

theorem takes_none {read : Source → Except DecodeError α} {x y : Option α} :
    Takes read none x y ↔ y = x := Iff.rfl

theorem takes_some {read : Source → Except DecodeError α} {j : Json} {x y : Option α} :
    Takes read (some j) x y ↔ ∃ v, read (Source.ofJson j) = .ok v ∧ y = some v := Iff.rfl

theorem readString_eq_ok_iff {j : Json} {s : String} : readString (Source.ofJson j) = .ok s ↔ j = .str s := by
  cases j <;> simp [Source.ofJson, readString]

/-- A string is read from a member that is one. -/
theorem takes_readString_iff {j? : Option Json} {s : String} :
    Takes readString j? none (some s) ↔ j? = some (.str s) := by
  cases j? with
  | none => simp [Takes]
  | some j => simp [Takes, readString_eq_ok_iff]

/-- A part of a record: the name of its member, what reads it and where it is kept. -/
structure RecordPart (α : Type) where
  name : String
  Content : Type
  read : Decoder Content
  get : α → Option Content
  put : Content → α → α

namespace RecordPart

/-- The field of a part, which is seen once it is there. -/
def field (p : RecordPart α) : RecordField α :=
  ⟨p.name, fun a => (p.get a).isSome, fun o s a => do return p.put (← p.read o s) a⟩

/-- The parts have names of their own, do not touch each other, and are the whole of a record but for a rest that
is not read. -/
structure Whole (parts : List (RecordPart α)) (rest : α → β) : Prop where
  names : (parts.map RecordPart.name).Nodup
  get_put : ∀ p ∈ parts, ∀ v a, p.get (p.put v a) = some v
  get_put_of_ne : ∀ p ∈ parts, ∀ q ∈ parts, q.name ≠ p.name → ∀ v a, q.get (p.put v a) = q.get a
  rest_put : ∀ p ∈ parts, ∀ v a, rest (p.put v a) = rest a
  ext : ∀ a b, rest a = rest b → (∀ p ∈ parts, p.get a = p.get b) → a = b

variable {parts : List (RecordPart α)} {rest : α → β} {p q : RecordPart α}

theorem Whole.eq_of_name_eq (whole : Whole parts rest) (hp : p ∈ parts) (hq : q ∈ parts) (h : q.name = p.name) :
    q = p :=
  List.inj_on_of_nodup_map whole.names hq hp h

theorem Whole.find?_field (whole : Whole parts rest) (hp : p ∈ parts) :
    (parts.map field).find? (·.name = p.name) = some p.field := by
  have hfind : parts.find? (fun q => decide (q.name = p.name)) = some p := by
    obtain ⟨q, hq⟩ := Option.isSome_iff_exists.1
      (List.find?_isSome (p := fun q : RecordPart α => decide (q.name = p.name)) |>.2 ⟨p, hp, by simp⟩)
    have hname : q.name = p.name := by simpa using List.find?_some hq
    rw [hq, whole.eq_of_name_eq hp (List.mem_of_find?_eq_some hq) hname]
  rw [List.find?_map]
  exact congrArg (Option.map field) hfind

end RecordPart

/-- **Every part of a record is read from the member of its name, and the rest stays.**  By induction on the
members: a member is read into the part of its name, which no later member tells, and leaves the others alone. -/
theorem readFields_parts_eq_ok_iff {parts : List (RecordPart α)} {rest : α → β}
    (whole : RecordPart.Whole parts rest) {o : Origin} {ms : List (String × Json)}
    (once : ∀ p ∈ parts, Keyed.Once p.name ms) {a b : α} (hfresh : Fresh (parts.map RecordPart.field) a ms) :
    readFields (parts.map RecordPart.field) o (Source.ofMembers ms) a = .ok b ↔
      rest b = rest a ∧ ∀ p ∈ parts, Takes (p.read o) (Keyed.lookup p.name ms) (p.get a) (p.get b) := by
  induction ms generalizing a with
  | nil =>
    simp only [Source.ofMembers, readFields, Keyed.lookup, takes_none, Except.ok.injEq]
    constructor
    · rintro rfl
      exact ⟨rfl, fun _ _ => rfl⟩
    · rintro ⟨hrest, hparts⟩
      exact (whole.ext b a hrest hparts).symm
  | cons m ms ih =>
    obtain ⟨name, j⟩ := m
    have hms : ∀ p ∈ parts, Keyed.Once p.name ms := fun p hp => (once p hp).sublist (List.sublist_cons_self _ _)
    by_cases hknown : ∃ p ∈ parts, p.name = name
    · obtain ⟨p, hp, rfl⟩ := hknown
      have honce : Keyed.Once p.name ([] ++ (p.name, j) :: ms) := once p hp
      have hnone : Keyed.lookup p.name ms = none := honce.lookup_self.2
      have hstep := fun v => ih hms (a := p.put v a) <| hfresh.tail hnone <| by
        simp only [List.forall_mem_map]
        exact fun q hq hne => congrArg Option.isSome (whole.get_put_of_ne p hp q hq hne v a)
      rw [readFields_cons_eq_ok_iff (fun v => p.put v a) (whole.find?_field hp)
        (hfresh.head (whole.find?_field hp)) fun _ => rfl]
      simp only [hstep, whole.rest_put p hp]
      constructor
      · rintro ⟨v, hv, hrest, hparts⟩
        refine ⟨hrest, fun q hq => ?_⟩
        have htakes := hparts q hq
        by_cases hne : q.name = p.name
        · obtain rfl := whole.eq_of_name_eq hp hq hne
          rw [hnone, whole.get_put q hp, takes_none] at htakes
          rw [Keyed.lookup, if_pos rfl, takes_some]
          exact ⟨v, hv, htakes⟩
        · rwa [Keyed.lookup, if_neg (Ne.symm hne), ← whole.get_put_of_ne p hp q hq hne v a]
      · rintro ⟨hrest, hparts⟩
        have htakes := hparts p hp
        rw [Keyed.lookup, if_pos rfl, takes_some] at htakes
        obtain ⟨v, hv, hget⟩ := htakes
        refine ⟨v, hv, hrest, fun q hq => ?_⟩
        by_cases hne : q.name = p.name
        · obtain rfl := whole.eq_of_name_eq hp hq hne
          rwa [hnone, whole.get_put q hp, takes_none]
        · have htakes := hparts q hq
          rwa [Keyed.lookup, if_neg (Ne.symm hne), ← whole.get_put_of_ne p hp q hq hne v a] at htakes
    · have hother : (parts.map RecordPart.field).find? (·.name = name) = none := find?_name_eq_none <| by
        simpa [RecordPart.field] using hknown
      rw [readFields_cons_unknown hother, ih hms hfresh.of_cons]
      refine and_congr_right fun _ => forall₂_congr fun p hp => ?_
      rw [Keyed.lookup, if_neg fun h => hknown ⟨p, hp, h.symm⟩]

/-- A record is decoded alike from two origins if there is room for it and its parts are. -/
theorem readFields_parts_congr {parts : List (RecordPart α)} {o o' : Origin} {ms : List (String × Json)} {a : α}
    (hparts : ∀ p ∈ parts, ∀ j : Json, o.admits j.depth = true →
      p.read o (Source.ofJson j) = p.read o' (Source.ofJson j))
    (hroom : o.admits (Json.depthMembers ms) = true) :
    readFields (parts.map RecordPart.field) o (Source.ofMembers ms) a =
      readFields (parts.map RecordPart.field) o' (Source.ofMembers ms) a := by
  refine readFields_congr ?_ hroom
  simp only [List.forall_mem_map]
  intro p hp j a hj
  simp only [RecordPart.field, hparts p hp j hj]

/-! ### A single member -/

/-- A record of one part. -/
def solePart (name : String) (read : Decoder α) : RecordPart (Option α) := ⟨name, α, read, id, fun v _ => some v⟩

/-- A record of one field. -/
def soleField (name : String) (read : Decoder α) : RecordField (Option α) := (solePart name read).field

section

variable {name : String} {read : Decoder α} {o : Origin} {ms : List (String × Json)} {x y : Option α}

theorem whole_solePart : RecordPart.Whole [solePart name read] fun _ => () := by
  constructor <;> simp [solePart]

theorem find?_soleField_of_ne {k : String} (h : k ≠ name) :
    [soleField name read].find? (·.name = k) = none :=
  find?_name_eq_none (by simpa [soleField, RecordPart.field, solePart] using h)

theorem find?_soleField : [soleField name read].find? (·.name = name) = some (soleField name read) :=
  whole_solePart.find?_field List.mem_cons_self

/-- It is the member of its name. -/
theorem readFields_soleField_eq_ok_iff (once : Keyed.Once name ms)
    (hfresh : Fresh [soleField name read] x ms) :
    readFields [soleField name read] o (Source.ofMembers ms) x = .ok y ↔
      Takes (read o) (Keyed.lookup name ms) x y := by
  refine (readFields_parts_eq_ok_iff whole_solePart (List.forall_mem_singleton.2 once) hfresh).trans ?_
  simp [solePart]

theorem readFields_soleField_congr {o' : Origin}
    (h : ∀ j : Json, o.admits j.depth = true → read o (Source.ofJson j) = read o' (Source.ofJson j))
    (hroom : o.admits (Json.depthMembers ms) = true) :
    readFields [soleField name read] o (Source.ofMembers ms) x =
      readFields [soleField name read] o' (Source.ofMembers ms) x := by
  have hpart : ∀ p ∈ [solePart name read], ∀ j : Json, o.admits j.depth = true →
      p.read o (Source.ofJson j) = p.read o' (Source.ofJson j) := List.forall_mem_singleton.2 h
  exact readFields_parts_congr hpart hroom

/-- What reads one member and sets the others aside reads a record of one field, since what is set aside is let in
where there is room. -/
theorem eq_readFields_soleField {find : List (Option String × Source) → Option α → Except DecodeError (Option α)}
    (hnil : ∀ x, find [] x = .ok x)
    (hcons : ∀ k s ss x, find ((some k, s) :: ss) x =
      if k = name then
        if x.isSome then .error (.duplicateField k) else read o s >>= fun v => find ss (some v)
      else setAside o s >>= fun _ => find ss x)
    (hroom : o.admits (Json.depthMembers ms) = true) :
    find (Source.ofMembers ms) x = readFields [soleField name read] o (Source.ofMembers ms) x := by
  induction ms generalizing x with
  | nil => exact hnil x
  | cons m ms ih =>
    obtain ⟨k, j⟩ := m
    obtain ⟨hj, hms⟩ := Origin.admits_depthMembers_cons.1 hroom
    rw [Source.ofMembers, hcons]
    by_cases hk : k = name
    · subst hk
      rw [if_pos rfl]
      cases x with
      | some v => exact (readFields_cons_seen find?_soleField rfl).symm
      | none =>
        refine Eq.trans ?_ (readFields_cons_known find?_soleField rfl).symm
        show (read o (Source.ofJson j) >>= fun v => find (Source.ofMembers ms) (some v)) =
          ((read o (Source.ofJson j) >>= fun v => pure (some v)) >>= _)
        rw [bind_assoc]
        exact bind_congr fun v => ih hms
    · rw [if_neg hk, setAside_ofJson, within_of_eq_true hj]
      exact (ih hms).trans (readFields_cons_unknown (find?_soleField_of_ne hk)).symm

end

end Decode

end Sieve
