import Sieve.Decode

/-!
# Decoding a value that is given as such

A value as a source has no defect, so the decoder of values can only refuse it for its depth.

* `Origin.admits`: whether a source of a given depth is let in.  Only text has a limit;
* `Decode.within`: the outcome that depends on this alone;
* `Decode.readJson_ofJson`: a value decodes to itself, with its members in order, if there is room;
* `Decode.readList_ofJson`, `Decode.readMap_ofJson`: so do lists and mappings of things that do;
* `Decode.readFields_ofMembers`: a record is decoded member by member.
-/

namespace Sieve

/-- Whether there is room for so many levels. -/
def Origin.admits : Origin → Nat → Bool
  | .text room, d => d ≤ room
  | _, _ => true

namespace Decode

variable {α β : Type}

/-- A value that is refused as malformed where there is no room for it. -/
def within (room : Bool) (a : α) : Except DecodeError α := if room then .ok a else .error .malformed

@[simp] theorem within_true (a : α) : within true a = .ok a := rfl

@[simp] theorem map_within (f : α → β) (room : Bool) (a : α) :
    (within room a).map f = within room (f a) := by
  cases room <;> rfl

/-- What comes of a value without fail comes of it where there is room for it. -/
theorem within_bind_ok {f : α → Except DecodeError β} (room : Bool) {a : α} {b : β}
    (hf : f a = .ok b) : (within room a >>= f) = within room b := by
  cases room
  · rfl
  · exact hf

theorem bind_eq_within {x : Except DecodeError α} {f : α → Except DecodeError β} {room : Bool} {a : α} {b : β}
    (hx : x = within room a) (hf : f a = .ok b) : (x >>= f) = within room b :=
  hx ▸ within_bind_ok room hf

/-- Where there is room for one thing and for another there is room for both. -/
theorem within_bind {f : α → Except DecodeError β} (room : Bool) {room' : Bool} {a : α} {b : β}
    (hf : f a = within room' b) : (within room a >>= f) = within (room && room') b := by
  cases room
  · rfl
  · exact hf

end Decode

namespace Origin

open Decode

@[simp] theorem admits_zero (o : Origin) : o.admits 0 = true := by
  cases o <;> simp [admits]

@[simp] theorem admits_buffered (d : Nat) : buffered.admits d = true := rfl

theorem admits_max (o : Origin) (c d : Nat) : o.admits (max c d) = (o.admits c && o.admits d) := by
  cases o with
  | text room => simp only [admits, Nat.max_le, Bool.decide_and]
  | value => rfl
  | buffered => rfl

/-- Entering an array or object takes one level. -/
theorem enter_bind {α : Type} (o : Origin) {f : Origin → Except DecodeError α} {d : Nat} {a : α}
    (hf : ∀ o, f o = within (Origin.admits o d) a) :
    (o.enter >>= f) = within (o.admits (d + 1)) a := by
  cases o with
  | text room =>
    cases room with
    | zero => rfl
    | succ room =>
      have hroom : Origin.admits (text (room + 1)) (d + 1) = Origin.admits (text room) d := by
        simp [admits]
      rw [hroom]
      exact hf (text room)
  | value => exact hf value
  | buffered => exact hf buffered

end Origin

namespace Decode

open Json

mutual

/-- A value decodes to itself, with its members in order, where there is room for it. -/
theorem readJson_ofJson : ∀ (o : Origin) (j : Json),
    readJson o (Source.ofJson j) = within (o.admits j.depth) j.sorted
  | o, .null => by simp [Source.ofJson, readJson, depth, sorted]
  | o, .bool b => by simp [Source.ofJson, readJson, depth, sorted]
  | o, .num x => by simp [Source.ofJson, readJson, depth, sorted]
  | o, .str s => by simp [Source.ofJson, readJson, depth, sorted]
  | o, .arr xs => by
    rw [Source.ofJson, readJson, depth, sorted]
    refine o.enter_bind fun o => ?_
    rw [readItems_ofItems o xs]
    exact within_bind_ok _ rfl
  | o, .obj ms => by
    rw [Source.ofJson, readJson, depth, sorted]
    refine o.enter_bind fun o => ?_
    rw [readMembers_ofMembers o ms]
    exact within_bind_ok _ rfl

theorem readItems_ofItems : ∀ (o : Origin) (xs : List Json),
    readItems o (Source.ofItems xs) = within (o.admits (depthItems xs)) (sortedItems xs)
  | o, [] => by simp [Source.ofItems, readItems, depthItems, sortedItems]
  | o, x :: xs => by
    rw [Source.ofItems, readItems, depthItems, sortedItems, readJson_ofJson o x,
      readItems_ofItems o xs, Origin.admits_max]
    exact within_bind _ (within_bind_ok _ rfl)

theorem readMembers_ofMembers : ∀ (o : Origin) (ms : List (String × Json)),
    readMembers o (Source.ofMembers ms) = within (o.admits (depthMembers ms)) (sortedMembers ms)
  | o, [] => by simp [Source.ofMembers, readMembers, depthMembers, sortedMembers]
  | o, (k, x) :: ms => by
    rw [Source.ofMembers, readMembers, depthMembers, sortedMembers, readJson_ofJson o x,
      readMembers_ofMembers o ms, Origin.admits_max]
    exact within_bind _ (within_bind_ok _ rfl)

end

/-- Setting a value aside only asks for room. -/
theorem setAside_ofJson (o : Origin) (j : Json) :
    setAside o (Source.ofJson j) = within (o.admits j.depth) () := by
  cases o with
  | text room =>
    rw [setAside, readJson_ofJson]
    exact map_within _ _ _
  | value => rfl
  | buffered => rfl

/-- The members of an object decode to themselves, in order, where there is room for the object. -/
theorem readObject_ofJson (o : Origin) (ms : List (String × Json)) :
    readObject o (Source.ofJson (.obj ms)) =
      within (o.admits (Json.obj ms).depth) (Keyed.ofList (sortedMembers ms)) := by
  rw [Source.ofJson, readObject, depth]
  refine o.enter_bind fun o => ?_
  rw [readMembers_ofMembers o ms]
  exact within_bind_ok _ rfl

theorem readJson_of_sorted (o : Origin) {j : Json} (h : j.sorted = j) :
    readJson o (Source.ofJson j) = within (o.admits j.depth) j := by
  rw [readJson_ofJson, h]

theorem readObject_of_sorted (o : Origin) {ms : List (String × Json)} (h : (Json.obj ms).sorted = .obj ms) :
    readObject o (Source.ofJson (.obj ms)) = within (o.admits (Json.obj ms).depth) ms := by
  rw [readObject_ofJson]
  exact congrArg _ (Json.obj.inj h)

/-! ### Names, lists and what may be missing -/

theorem readString_ofJson (o : Origin) (s : String) :
    readString (Source.ofJson (.str s)) = within (o.admits (Json.str s).depth) s := by
  simp [Source.ofJson, readString, Json.depth]

/-- What may be missing decodes to itself where it is there and is not null. -/
theorem readOption_ofJson {read : Source → Except DecodeError α} {j : Json} {room : Bool} {a : α}
    (hj : j ≠ .null) (h : read (Source.ofJson j) = within room a) :
    readOption read (Source.ofJson j) = within room (some a) := by
  have hread : readOption read (Source.ofJson j) = (read (Source.ofJson j)).map some := by
    cases j with
    | null => exact absurd rfl hj
    | _ => rfl
  rw [hread, h, map_within]

section

variable {read : Decoder α} {encode : α → Json}

theorem readEach_ofItems (o : Origin) {xs : List α}
    (h : ∀ x ∈ xs, read o (Source.ofJson (encode x)) = within (o.admits (encode x).depth) x) :
    readEach (read o) (Source.ofItems (xs.map encode)) =
      within (o.admits (Json.depthItems (xs.map encode))) xs := by
  induction xs with
  | nil => simp [Source.ofItems, readEach, Json.depthItems]
  | cons x xs ih =>
    obtain ⟨hx, hxs⟩ := List.forall_mem_cons.1 h
    rw [List.map_cons, Source.ofItems, readEach, Json.depthItems, Origin.admits_max, hx, ih hxs]
    exact within_bind _ (within_bind_ok _ rfl)

/-- An array decodes to its items if these decode to themselves. -/
theorem readList_ofJson (o : Origin) {xs : List α}
    (h : ∀ o, ∀ x ∈ xs, read o (Source.ofJson (encode x)) = within (Origin.admits o (encode x).depth) x) :
    readList read o (Source.ofJson (.arr (xs.map encode))) =
      within (o.admits (Json.arr (xs.map encode)).depth) xs := by
  rw [Source.ofJson, readList, Json.depth]
  refine o.enter_bind fun o => ?_
  rw [readEach_ofItems o (h o)]
  exact within_bind_ok _ rfl

theorem readEachMember_ofMembers (o : Origin) {xs : List (String × α)}
    (h : ∀ x ∈ xs, read o (Source.ofJson (encode x.2)) = within (o.admits (encode x.2).depth) x.2) :
    readEachMember (read o) (Source.ofMembers (xs.map fun x => (x.1, encode x.2))) =
      within (o.admits (Json.depthMembers (xs.map fun x => (x.1, encode x.2)))) xs := by
  induction xs with
  | nil => simp [Source.ofMembers, readEachMember, Json.depthMembers]
  | cons x xs ih =>
    obtain ⟨hx, hxs⟩ := List.forall_mem_cons.1 h
    rw [List.map_cons, Source.ofMembers, readEachMember, Json.depthMembers, Origin.admits_max, hx, ih hxs]
    exact within_bind _ (within_bind_ok _ rfl)

/-- A mapping decodes to its members, in order, if their values decode to themselves. -/
theorem readMap_ofJson (o : Origin) {xs : List (String × α)}
    (h : ∀ o, ∀ x ∈ xs, read o (Source.ofJson (encode x.2)) = within (Origin.admits o (encode x.2).depth) x.2) :
    readMap read o (Source.ofJson (.obj (xs.map fun x => (x.1, encode x.2)))) =
      within (o.admits (Json.obj (xs.map fun x => (x.1, encode x.2))).depth) (Keyed.ofList xs) := by
  rw [Source.ofJson, readMap, Json.depth]
  refine o.enter_bind fun o => ?_
  rw [readEachMember_ofMembers o (h o)]
  exact within_bind_ok _ rfl

end

/-! ### Records -/

/-- What is put into a record comes to be there if it is decoded. -/
theorem bind_pure_within {r : Except DecodeError α} {room : Bool} {a : α} {g : α → β}
    (hr : r = within room a) : (do return g (← r)) = within room (g a) :=
  bind_eq_within hr rfl

/-- The members of a record decode one after another, if each decodes to what it adds to the rest. -/
theorem readFields_ofMembers {fields : List (RecordField α)} {o : Origin} {name : String} {j : Json}
    {ms : List (String × Json)} {f : RecordField α} {a b c : α}
    (hfield : fields.find? (·.name = name) = some f) (hseen : f.seen a = false)
    (hread : f.read o (Source.ofJson j) a = within (o.admits j.depth) b)
    (hrest : readFields fields o (Source.ofMembers ms) b =
      within (o.admits (Json.depthMembers ms)) c) :
    readFields fields o (Source.ofMembers ((name, j) :: ms)) a =
      within (o.admits (Json.depthMembers ((name, j) :: ms))) c := by
  rw [Source.ofMembers, readFields, Json.depthMembers, Origin.admits_max]
  simp only [readName, bind, Except.bind, hfield, hseen, Bool.false_eq_true, if_false, hread]
  exact within_bind _ hrest

/-- Unknown members that are strings are passed over. -/
theorem readFields_unknown {fields : List (RecordField α)} {o : Origin} {ms rest : List (String × Json)}
    {a b : α} (hms : ∀ m ∈ ms, fields.find? (·.name = m.1) = none ∧ ∃ s, m.2 = .str s)
    (hrest : readFields fields o (Source.ofMembers rest) a = within (o.admits (Json.depthMembers rest)) b) :
    readFields fields o (Source.ofMembers (ms ++ rest)) a =
      within (o.admits (Json.depthMembers (ms ++ rest))) b := by
  induction ms with
  | nil => exact hrest
  | cons m ms ih =>
    obtain ⟨⟨hunknown, s, hs⟩, htail⟩ := List.forall_mem_cons.1 hms
    obtain ⟨name, j⟩ := m
    dsimp only at hunknown hs
    subst hs
    have hdepth : (Json.str s).depth = 0 := rfl
    rw [List.cons_append, Source.ofMembers, readFields, Json.depthMembers, hdepth, Nat.zero_max]
    simp only [readName, bind, Except.bind, hunknown, Source.ofJson, skip]
    exact ih htail

end Decode

end Sieve
