import Sieve.Proofs.Tree.NodeForms

/-!
# Trees from texts

Where a text has room for a value, a node and a tree are decoded from it as from the value.  What is below a node
has been set aside with the node, so only the levels above the first node are met in the text itself.

* `Node.read_text`, `Group.read_text`: nodes and trees;
* `readChildren_text`, `readGroupMembers_text`, `readGroupItems_text`: what stands between them.
-/

namespace Sieve

open Decode

theorem setAsideAll_ofItems {o : Origin} {items : List Json} (h : ∀ j ∈ items, o.admits j.depth = true) :
    setAsideAll o (Source.ofItems items) = .ok () := by
  induction items with
  | nil => rw [Source.ofItems, setAsideAll]
  | cons j items ih =>
    obtain ⟨hj, hitems⟩ := List.forall_mem_cons.1 h
    rw [Source.ofItems, setAsideAll, setAside_ofJson, within_of_eq_true hj]
    exact ih hitems

variable {ι : Type} [Mark ι] {room : Nat}

/-- Only in a buffer is a kind also told by a number. -/
theorem Kind.read_text (s : Source) : Kind.read (.text room) s = Kind.read .value s := by
  cases s with
  | string s? =>
    unfold Kind.read
    split <;> simp_all
  | number n? => rcases n? with - | - | - <;> rfl
  | _ => rfl

/-- Where a text has room for an array or object it is entered, and has room for what is in it. -/
theorem Origin.admits_text_succ {d : Nat} (h : Origin.admits (.text room) (d + 1) = true) :
    ∃ inner, room = inner + 1 ∧ Origin.admits (.text inner) d = true := by
  cases room with
  | zero => simp [admits] at h
  | succ room => exact ⟨room, rfl, by simpa [admits] using h⟩

/-- Where a text has room for a value a node is decoded from it as from the value. -/
theorem Node.read_text {j : Json} (hroom : Origin.admits (.text room) j.depth = true) :
    Node.read (ι := ι) (.text room) (Source.ofJson j) = Node.read .value (Source.ofJson j) := by
  cases j with
  | obj ms =>
    rw [Json.depth] at hroom
    obtain ⟨room, rfl, hms⟩ := Origin.admits_text_succ hroom
    have hkind : readKind (.text room) (Source.ofMembers ms) none = readKind .value (Source.ofMembers ms) none := by
      rw [readKind_eq_readFields hms, readKind_eq_readFields (o := .value) rfl]
      exact readFields_soleField_congr (fun _ _ => Kind.read_text _) hms
    rw [Source.ofJson, Node.read, Node.read]
    show (readKind (.text room) _ none >>= _) = (readKind .value _ none >>= _)
    rw [hkind]
  | arr items =>
    rw [Json.depth] at hroom
    obtain ⟨room, rfl, hitems⟩ := Origin.admits_text_succ hroom
    rw [Origin.admits_depthItems_iff] at hitems
    cases items with
    | nil => rfl
    | cons kind items =>
      have haside := setAsideAll_ofItems (List.forall_mem_cons.1 hitems).2
      rw [Source.ofJson, Source.ofItems, Node.read, Node.read]
      show (Kind.read (.text room) _ >>= fun k => setAsideAll (.text room) _ >>= _) =
        (Kind.read .value _ >>= fun k => setAsideAll .value _ >>= _)
      rw [Kind.read_text, haside, setAsideAll_ofItems (o := .value) fun _ _ => rfl]
  | _ => rfl

theorem Node.readAll_text {xs : List Json} (hroom : ∀ x ∈ xs, Origin.admits (.text room) x.depth = true) :
    Node.readAll (ι := ι) (.text room) (Source.ofItems xs) = Node.readAll .value (Source.ofItems xs) := by
  induction xs with
  | nil => rw [Source.ofItems, Node.readAll, Node.readAll]
  | cons x xs ih =>
    obtain ⟨hx, hxs⟩ := List.forall_mem_cons.1 hroom
    rw [Source.ofItems, Node.readAll, Node.readAll, Node.read_text hx, ih hxs]

theorem readChildren_text {j : Json} (hroom : Origin.admits (.text room) j.depth = true) :
    readChildren (ι := ι) (.text room) (Source.ofJson j) = readChildren .value (Source.ofJson j) := by
  cases j with
  | arr xs =>
    rw [Json.depth] at hroom
    obtain ⟨room, rfl, hxs⟩ := Origin.admits_text_succ hroom
    rw [Source.ofJson, readChildren, readChildren]
    show (Node.readAll (.text room) _ >>= _) = (Node.readAll .value _ >>= _)
    rw [Node.readAll_text (Origin.admits_depthItems_iff.1 hxs)]
  | _ => rfl

theorem readGroupMembers_text {ms : List (String × Json)}
    (hroom : Origin.admits (.text room) (Json.depthMembers ms) = true) (a : GroupParts ι) :
    readGroupMembers (.text room) (Source.ofMembers ms) a = readGroupMembers .value (Source.ofMembers ms) a := by
  rw [readGroupMembers_eq_readFields, readGroupMembers_eq_readFields]
  refine readFields_parts_congr ?_ hroom
  -- only the children are not read alike from everywhere
  rw [GroupParts.parts]
  split <;> simp +contextual [GroupParts.idPart, GroupParts.combinatorPart, GroupParts.childrenPart, readChildren_text]

theorem readGroupItems_text {items : List Json} (hroom : ∀ x ∈ items, Origin.admits (.text room) x.depth = true)
    (place : Nat) (a : GroupParts ι) : readGroupItems (.text room) place (Source.ofItems items) a =
      readGroupItems .value place (Source.ofItems items) a := by
  induction items generalizing place a with
  | nil => rw [Source.ofItems, readGroupItems, readGroupItems]
  | cons x items ih =>
    obtain ⟨hx, hitems⟩ := List.forall_mem_cons.1 hroom
    match place with
    | 0 => simp only [Source.ofItems, readGroupItems, ih hitems]
    | 1 => simp only [Source.ofItems, readGroupItems, ih hitems]
    | 2 => simp only [Source.ofItems, readGroupItems, ih hitems, readChildren_text hx]
    | _ + 3 => simp only [Source.ofItems, readGroupItems]

/-- An array that was read as a record ends alike in a text and in a value. -/
theorem closeRecord_text {left : Option (List Source)} {u : Unit} :
    closeRecord (.text room) left .closed = .ok u ↔ closeRecord .value left .closed = .ok u := by
  rcases left with - | - | - <;> simp [closeRecord, closeElements]

/-- So is a tree. -/
theorem Group.read_text {j : Json} (hroom : Origin.admits (.text room) j.depth = true) {g : Group ι} :
    Group.read (.text room) (Source.ofJson j) = .ok g ↔ Group.read .value (Source.ofJson j) = .ok g := by
  cases j with
  | obj ms =>
    rw [Json.depth] at hroom
    obtain ⟨room, rfl, hms⟩ := Origin.admits_text_succ hroom
    rw [Source.ofJson, Group.read, Group.read]
    show (readGroupMembers (.text room) _ _ >>= _) = _ ↔ (readGroupMembers .value _ _ >>= _) = _
    rw [readGroupMembers_text hms]
  | arr items =>
    rw [Json.depth] at hroom
    obtain ⟨room, rfl, hitems⟩ := Origin.admits_text_succ hroom
    rw [Source.ofJson, Group.read, Group.read]
    show (readGroupItems (.text room) _ _ _ >>= _) = _ ↔ (readGroupItems .value _ _ _ >>= _) = _
    rw [readGroupItems_text (Origin.admits_depthItems_iff.1 hitems), bind_eq_ok, bind_eq_ok]
    simp only [bind_eq_ok, closeRecord_text]
  | _ => exact Iff.rfl

end Sieve
