import Sieve.Proofs.Json.Decoded

/-!
# The order of what has been decoded

A mapping has its members in increasing order of names, whatever the order in which they are read.

* `Keyed.ofList_eq_of_perm`: members in order are what comes of them in any order;
* `Decode.Ensures`: what is true of everything that a decoder gives.  `Decode.readRecord_ensures` derives it
  for a record from its fields, one by one;
* `Decode.readJson_ensures`: a value that has been decoded is in order.
-/

namespace Sieve

/-! ### Members in order -/

namespace Keyed

variable {α : Type}

/-- Where no name is repeated, setting the members one after another leaves them all. -/
theorem perm_ofList {members : List (String × α)} (h : (members.map Prod.fst).Nodup) :
    (ofList members).Perm members := by
  suffices ∀ acc : List (String × α), Increasing acc → ((acc ++ members).map Prod.fst).Nodup →
      (members.foldl (fun acc p => insert p.1 p.2 acc) acc).Perm (acc ++ members) from
    this [] List.Pairwise.nil h
  clear h
  induction members with
  | nil =>
    intro acc _ _
    rw [List.append_nil]
    exact List.Perm.refl acc
  | cons p rest ih =>
    intro acc hacc hnodup
    have hnew : ∀ q ∈ acc, q.1 ≠ p.1 := by
      rw [List.map_append, List.map_cons, List.nodup_append] at hnodup
      exact fun q hq => hnodup.2.2 q.1 (List.mem_map_of_mem hq) p.1 List.mem_cons_self
    have hinsert : (insert p.1 p.2 acc).Perm (acc ++ [p]) := by
      have hperm := perm_insert p.1 p.2 hacc
      rwa [erase_eq_self hnew] at hperm
    have hall : (insert p.1 p.2 acc ++ rest).Perm (acc ++ p :: rest) := by
      rw [← List.singleton_append, ← List.append_assoc]
      exact hinsert.append_right rest
    have hrest := ih (insert p.1 p.2 acc) (increasing_insert p.1 p.2 hacc)
      ((hall.map Prod.fst).nodup_iff.2 hnodup)
    exact hrest.trans hall

/-- Members in order are what comes of them in any order. -/
theorem ofList_eq_of_perm {members others : List (String × α)} (ho : Increasing others)
    (h : members.Perm others) : ofList members = others := by
  have hnodup : (members.map Prod.fst).Nodup := (h.map Prod.fst).nodup_iff.2 (nodup_of_increasing ho)
  exact List.Perm.eq_of_pairwise (fun p q _ _ hpq hqp => absurd hqp (String.lt_asymm hpq))
    (increasing_ofList members) ho ((perm_ofList hnodup).trans h)

theorem ofList_eq_self {members : List (String × α)} (h : Increasing members) : ofList members = members :=
  ofList_eq_of_perm h (List.Perm.refl members)

/-- Members are in order if their names are among names in order, as they stand. -/
theorem increasing_of_sublist {names : List String} (h : names.Pairwise (· < ·)) {members : List (String × α)}
    (hm : (members.map Prod.fst).Sublist names) : Increasing members :=
  List.pairwise_map.1 (h.sublist hm)

theorem mem_ofList {p : String × α} {members : List (String × α)} (h : p ∈ ofList members) : p ∈ members := by
  suffices ∀ acc : List (String × α), p ∈ members.foldl (fun acc p => insert p.1 p.2 acc) acc →
      p ∈ acc ∨ p ∈ members from (this [] h).resolve_left List.not_mem_nil
  clear h
  induction members with
  | nil => exact fun acc h => .inl h
  | cons q rest ih =>
    intro acc h
    rcases ih _ h with h | h
    · rcases mem_insert h with rfl | h
      · exact .inr List.mem_cons_self
      · exact .inl h
    · exact .inr (List.mem_cons_of_mem _ h)

end Keyed

namespace Json

@[simp] theorem sorted_str (s : String) : (str s).sorted = str s := by simp [sorted]

theorem sortedItems_eq_map (xs : List Json) : sortedItems xs = xs.map sorted := by
  induction xs with
  | nil => rfl
  | cons x xs ih => rw [sortedItems, ih, List.map_cons]

theorem sortedMembers_eq_map (ms : List (String × Json)) :
    sortedMembers ms = ms.map fun m => (m.1, m.2.sorted) := by
  induction ms with
  | nil => rfl
  | cons m ms ih =>
    obtain ⟨k, x⟩ := m
    rw [sortedMembers, ih, List.map_cons]

theorem sortedItems_eq_self {xs : List Json} (h : ∀ x ∈ xs, x.sorted = x) : sortedItems xs = xs := by
  rw [sortedItems_eq_map, List.map_congr_left h, List.map_id']

theorem sortedMembers_eq_self {ms : List (String × Json)} (h : ∀ m ∈ ms, m.2.sorted = m.2) :
    sortedMembers ms = ms := by
  rw [sortedMembers_eq_map, List.map_congr_left (g := id) fun m hm => by rw [h m hm, id], List.map_id]

theorem sortedMembers_append (ms ns : List (String × Json)) :
    sortedMembers (ms ++ ns) = sortedMembers ms ++ sortedMembers ns := by
  simp only [sortedMembers_eq_map, List.map_append]

/-- An object comes to have its members in order, and their values as they come to be. -/
theorem sorted_obj_of_perm {ms ns : List (String × Json)} (hns : Keyed.Increasing ns)
    (h : (sortedMembers ms).Perm ns) : (obj ms).sorted = obj ns := by
  rw [sorted, Keyed.ofList_eq_of_perm hns h]

/-- An object is in order if its members are and their values are. -/
theorem sorted_obj_eq_self {ms : List (String × Json)} (hms : Keyed.Increasing ms)
    (h : ∀ m ∈ ms, m.2.sorted = m.2) : (obj ms).sorted = obj ms := by
  refine sorted_obj_of_perm hms ?_
  rw [sortedMembers_eq_self h]

end Json

namespace Decode

variable {α β : Type}

/-! ### What decoders ensure -/

/-- Whatever a decoder gives has a property. -/
def Ensures (read : Decoder α) (Q : α → Prop) : Prop := ∀ o s a, read o s = .ok a → Q a

theorem bind_eq_ok {x : Except DecodeError α} {f : α → Except DecodeError β} {b : β} :
    (x >>= f) = .ok b ↔ ∃ a, x = .ok a ∧ f a = .ok b := by
  cases x with
  | error e =>
    constructor
    · rintro ⟨⟩
    · rintro ⟨_, ⟨⟩, _⟩
  | ok a =>
    constructor
    · exact fun h => ⟨a, rfl, h⟩
    · rintro ⟨_, ⟨⟩, h⟩
      exact h

theorem map_eq_ok {x : Except DecodeError α} {f : α → β} {b : β} :
    x.map f = .ok b ↔ ∃ a, x = .ok a ∧ f a = b := by
  cases x with
  | error e =>
    constructor
    · rintro ⟨⟩
    · rintro ⟨_, ⟨⟩, _⟩
  | ok a =>
    constructor
    · rintro ⟨⟩
      exact ⟨a, rfl, rfl⟩
    · rintro ⟨_, ⟨⟩, rfl⟩
      rfl

mutual

/-- A value that has been decoded is in order. -/
theorem sorted_of_readJson : ∀ (o : Origin) (s : Source) {j : Json}, readJson o s = .ok j → j.sorted = j
  | o, .null, j, h => by
    cases h
    rfl
  | o, .bool b, j, h => by
    cases h
    rfl
  | o, .number (some n), j, h => by
    cases h
    rfl
  | o, .string (some s), j, h => by
    cases h
    rfl
  | o, .number none, j, h => by cases h
  | o, .string none, j, h => by cases h
  | o, .broken b, j, h => by cases h
  | o, .array items ending, j, h => by
    rw [readJson] at h
    obtain ⟨o', -, h⟩ := bind_eq_ok.1 h
    obtain ⟨xs, hxs, h⟩ := bind_eq_ok.1 h
    obtain ⟨_, -, ⟨⟩⟩ := bind_eq_ok.1 h
    rw [Json.sorted, Json.sortedItems_eq_self (sorted_of_readItems o' items hxs)]
  | o, .object members ending, j, h => by
    rw [readJson] at h
    obtain ⟨o', -, h⟩ := bind_eq_ok.1 h
    obtain ⟨ms, hms, h⟩ := bind_eq_ok.1 h
    obtain ⟨_, -, ⟨⟩⟩ := bind_eq_ok.1 h
    have hvalues := sorted_of_readMembers o' members hms
    exact Json.sorted_obj_eq_self (Keyed.increasing_ofList ms) fun m hm => hvalues m (Keyed.mem_ofList hm)

theorem sorted_of_readItems : ∀ (o : Origin) (ss : List Source) {xs : List Json},
    readItems o ss = .ok xs → ∀ x ∈ xs, x.sorted = x
  | o, [], xs, h => by
    cases h
    simp
  | o, s :: ss, xs, h => by
    rw [readItems] at h
    obtain ⟨x, hx, h⟩ := bind_eq_ok.1 h
    obtain ⟨xs', hxs, ⟨⟩⟩ := bind_eq_ok.1 h
    exact List.forall_mem_cons.2 ⟨sorted_of_readJson o s hx, sorted_of_readItems o ss hxs⟩

theorem sorted_of_readMembers : ∀ (o : Origin) (ss : List (Option String × Source)) {ms : List (String × Json)},
    readMembers o ss = .ok ms → ∀ m ∈ ms, m.2.sorted = m.2
  | o, [], ms, h => by
    cases h
    simp
  | o, (name, s) :: ss, ms, h => by
    rw [readMembers] at h
    obtain ⟨k, -, h⟩ := bind_eq_ok.1 h
    obtain ⟨x, hx, h⟩ := bind_eq_ok.1 h
    obtain ⟨ms', hms, ⟨⟩⟩ := bind_eq_ok.1 h
    exact List.forall_mem_cons.2 ⟨sorted_of_readJson o s hx, sorted_of_readMembers o ss hms⟩

end

theorem readJson_ensures : Ensures readJson fun j => j.sorted = j :=
  fun o s _ h => sorted_of_readJson o s h

/-- An object that has been decoded is in order. -/
theorem readObject_ensures : Ensures readObject fun ms => (Json.obj ms).sorted = .obj ms := by
  intro o s ms h
  cases s with
  | object members ending =>
    rw [readObject] at h
    obtain ⟨o', -, h⟩ := bind_eq_ok.1 h
    obtain ⟨ms', hms, h⟩ := bind_eq_ok.1 h
    obtain ⟨_, -, ⟨⟩⟩ := bind_eq_ok.1 h
    have hvalues := sorted_of_readMembers o' members hms
    exact Json.sorted_obj_eq_self (Keyed.increasing_ofList ms') fun m hm => hvalues m (Keyed.mem_ofList hm)
  | _ => cases h

/-- The members of a mapping that has been decoded are in order. -/
theorem readMap_ensures (read : Decoder α) : Ensures (readMap read) Keyed.Increasing := by
  intro o s xs h
  cases s with
  | object members ending =>
    rw [readMap] at h
    obtain ⟨o', -, h⟩ := bind_eq_ok.1 h
    obtain ⟨xs', hxs, h⟩ := bind_eq_ok.1 h
    obtain ⟨_, -, ⟨⟩⟩ := bind_eq_ok.1 h
    exact Keyed.increasing_ofList xs'
  | _ => cases h

theorem readEach_ensures {read : Source → Except DecodeError α} {Q : α → Prop}
    (hread : ∀ s a, read s = .ok a → Q a) {ss : List Source} {xs : List α} (h : readEach read ss = .ok xs) :
    ∀ x ∈ xs, Q x := by
  induction ss generalizing xs with
  | nil =>
    cases h
    simp
  | cons s ss ih =>
    rw [readEach] at h
    obtain ⟨x, hx, h⟩ := bind_eq_ok.1 h
    obtain ⟨xs', hxs, ⟨⟩⟩ := bind_eq_ok.1 h
    exact List.forall_mem_cons.2 ⟨hread s x hx, ih hxs⟩

/-- What is true of all items is true of the items of an array. -/
theorem readList_ensures {read : Decoder α} {Q : α → Prop} (hread : Ensures read Q) :
    Ensures (readList read) fun xs => ∀ x ∈ xs, Q x := by
  intro o s xs h
  cases s with
  | array items ending =>
    rw [readList] at h
    obtain ⟨o', -, h⟩ := bind_eq_ok.1 h
    obtain ⟨xs', hxs, h⟩ := bind_eq_ok.1 h
    obtain ⟨_, -, ⟨⟩⟩ := bind_eq_ok.1 h
    exact readEach_ensures (hread o') hxs
  | _ => cases h

theorem readOption_ensures {read : Source → Except DecodeError α} {Q : α → Prop}
    (hread : ∀ s a, read s = .ok a → Q a) {s : Source} {a? : Option α} (h : readOption read s = .ok a?) :
    ∀ a ∈ a?, Q a := by
  cases s with
  | null =>
    cases h
    simp
  | _ =>
    obtain ⟨a, ha, rfl⟩ := map_eq_ok.1 h
    rintro _ ⟨⟩
    exact hread _ a ha

/-! ### Records -/

theorem eq_some_of_required {missing : String → DecodeError} {name : String} {a? : Option α} {a : α}
    (h : required missing name a? = .ok a) : a? = some a := by
  cases a? with
  | none => cases h
  | some a =>
    cases h
    rfl

theorem eq_some_of_getD_none {a? : Option (Option α)} {a : α} (h : a ∈ a?.getD none) : a? = some (some a) := by
  cases a? with
  | none => cases h
  | some b? => exact congrArg some h

/-- Reading a field keeps a property of what has been read of a record. -/
def RecordField.Keeps (P : α → Prop) (f : RecordField α) : Prop :=
  ∀ o s a b, P a → f.read o s a = .ok b → P b

section

variable {P : α → Prop} {fields : List (RecordField α)}

theorem readFields_keeps (hfields : ∀ f ∈ fields, f.Keeps P) (o : Origin)
    (members : List (Option String × Source)) {a b : α} (ha : P a)
    (h : readFields fields o members a = .ok b) : P b := by
  induction members generalizing a with
  | nil =>
    cases h
    exact ha
  | cons m members ih =>
    obtain ⟨name, s⟩ := m
    rw [readFields] at h
    obtain ⟨k, -, h⟩ := bind_eq_ok.1 h
    split at h
    next hunknown =>
      obtain ⟨_, -, h⟩ := bind_eq_ok.1 h
      exact ih ha h
    next f hfound =>
      split at h
      next => cases h
      next =>
        obtain ⟨c, hc, h⟩ := bind_eq_ok.1 h
        exact ih (hfields f (List.mem_of_find?_eq_some hfound) o s a c ha hc) h

theorem readElements_keeps (o : Origin) (hfields : ∀ f ∈ fields, f.Keeps P) {items : List Source} {a : α}
    {b : α × Option (List Source)} (ha : P a) (h : readElements o fields items a = .ok b) : P b.1 := by
  induction fields generalizing items a with
  | nil =>
    cases h
    exact ha
  | cons f fields ih =>
    obtain ⟨hf, hrest⟩ := List.forall_mem_cons.1 hfields
    cases items with
    | nil =>
      cases h
      exact ha
    | cons s items =>
      rw [readElements] at h
      obtain ⟨c, hc, h⟩ := bind_eq_ok.1 h
      exact ih hrest (hf o s a c ha hc) h

/-- What is true before any field is read, and kept by every field, is true in the end. -/
theorem readRecord_ensures {start : α} {finish : (String → DecodeError) → α → Except DecodeError β}
    {Q : β → Prop} (hstart : P start) (hfields : ∀ f ∈ fields, f.Keeps P)
    (hfinish : ∀ missing a b, P a → finish missing a = .ok b → Q b) :
    Ensures (readRecord fields start finish) Q := by
  intro o s b h
  cases s with
  | object members ending =>
    rw [readRecord] at h
    obtain ⟨o', -, h⟩ := bind_eq_ok.1 h
    obtain ⟨a, ha, h⟩ := bind_eq_ok.1 h
    obtain ⟨_, -, h⟩ := bind_eq_ok.1 h
    exact hfinish _ a b (readFields_keeps hfields o' members hstart ha) h
  | array items ending =>
    rw [readRecord] at h
    obtain ⟨o', -, h⟩ := bind_eq_ok.1 h
    obtain ⟨⟨a, left⟩, ha, h⟩ := bind_eq_ok.1 h
    obtain ⟨_, -, h⟩ := bind_eq_ok.1 h
    exact hfinish _ a b (readElements_keeps o' hfields hstart ha) h
  | _ => cases h

end

end Decode

end Sieve
