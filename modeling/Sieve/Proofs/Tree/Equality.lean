import Sieve.Proofs.Json.Equality
import Sieve.Proofs.Tree.Ids
import Sieve.Proofs.Tree.Sites

/-!
# Equality of trees

Trees are compared node by node, and their rules member by member.  The comparison sees everything but
the signs of zeros in the values of rules and in what editors keep with them.

* `Group.beq_iff`: two trees are equal if they are the same without the signs of their zeros;
* `Rule.beq_comm`, `Group.beq_self`, `Group.ids_of_beq`: what follows from it;
* `Group.beq_replaceAt`, `Group.beq_push`: a tree is compared with what it becomes when one of its nodes
  gives way as the two nodes are, and a group that has one more child is another group.
-/

namespace Sieve

/-! ### Rules -/

namespace Rule

/-- A rule without the signs of its zeros. -/
def unsignedZeros (r : Rule String) : Rule String :=
  { r with value := r.value.unsignedZeros, extra := r.extra.map Json.unsignedMembers }

/-- Two rules are equal if they are equal member by member. -/
theorem beq_eq (r s : Rule String) : (r == s) = (r.id == s.id && r.field == s.field && r.op == s.op &&
    Json.beq r.value s.value && r.component == s.component && sameExtra r.extra s.extra) := rfl

theorem sameExtra_iff : ∀ xs ys : Option (List (String × Json)),
    sameExtra xs ys = true ↔ xs.map Json.unsignedMembers = ys.map Json.unsignedMembers
  | none, none => by simp [sameExtra]
  | none, some _ => by simp [sameExtra]
  | some _, none => by simp [sameExtra]
  | some xs, some ys => by simpa [sameExtra] using Json.beqMembers_iff xs ys

/-- Two rules are equal if they are the same without the signs of their zeros. -/
theorem beq_iff (r s : Rule String) : (r == s) = true ↔ r.unsignedZeros = s.unsignedZeros := by
  simp only [beq_eq, Bool.and_eq_true, beq_iff_eq, Json.beq_iff, sameExtra_iff, unsignedZeros, mk.injEq,
    and_assoc]

theorem beq_self (r : Rule String) : (r == r) = true := (beq_iff r r).2 rfl

theorem beq_comm (r s : Rule String) : (r == s) = (s == r) := by
  rw [Bool.eq_iff_iff, beq_iff, beq_iff, eq_comm]

end Rule

/-! ### Trees -/

namespace Node

mutual

/-- A node without the signs of its zeros. -/
def unsignedZeros : Node String → Node String
  | rule r => rule r.unsignedZeros
  | group i c cs => group i c (unsignedAll cs)

/-- Each node of a row without the signs of its zeros. -/
def unsignedAll : List (Node String) → List (Node String)
  | [] => []
  | n :: ns => unsignedZeros n :: unsignedAll ns

end

/-- Two groups are equal if they are equal member by member and child by child. -/
theorem beq_group (i j : String) (c d : Combinator) (cs ds : List (Node String)) :
    beq (group i c cs) (group j d ds) = (i == j && c == d && beqAll cs ds) := rfl

mutual

/-- Two nodes are equal if they are the same without the signs of their zeros. -/
theorem beq_iff : ∀ m n : Node String, beq m n = true ↔ m.unsignedZeros = n.unsignedZeros
  | .rule r, .rule s => by simpa [beq, unsignedZeros] using Rule.beq_iff r s
  | .rule _, .group _ _ _ => by simp [beq, unsignedZeros]
  | .group _ _ _, .rule _ => by simp [beq, unsignedZeros]
  | .group i c cs, .group j d ds => by
    simp [beq_group, unsignedZeros, beqAll_iff cs ds, and_assoc]

theorem beqAll_iff : ∀ ms ns : List (Node String),
    beqAll ms ns = true ↔ unsignedAll ms = unsignedAll ns
  | [], [] => by simp [beqAll]
  | [], _ :: _ => by simp [beqAll, unsignedAll]
  | _ :: _, [] => by simp [beqAll, unsignedAll]
  | m :: ms, n :: ns => by simp [beqAll, unsignedAll, beq_iff m n, beqAll_iff ms ns]

end

mutual

theorem ids_unsignedZeros : ∀ n : Node String, n.unsignedZeros.ids = n.ids
  | .rule _ => rfl
  | .group i c cs => by rw [unsignedZeros, ids_group, ids_group, ids_unsignedAll cs]

theorem ids_unsignedAll : ∀ ns : List (Node String), (unsignedAll ns).flatMap ids = ns.flatMap ids
  | [] => rfl
  | n :: ns => by
    rw [unsignedAll, List.flatMap_cons, List.flatMap_cons, ids_unsignedZeros n, ids_unsignedAll ns]

end

/-- A node equals itself. -/
theorem beq_self (n : Node String) : beq n n = true := (beq_iff n n).2 rfl

theorem beqAll_self (ns : List (Node String)) : beqAll ns ns = true := (beqAll_iff ns ns).2 rfl

/-- Equal nodes have the same ids. -/
theorem ids_of_beq {m n : Node String} (h : beq m n = true) : m.ids = n.ids := by
  rw [← ids_unsignedZeros m, (beq_iff m n).1 h, ids_unsignedZeros]

/-- A row in which one node gives way is compared as the two nodes are. -/
theorem beqAll_modify {cs : List (Node String)} {d : Node String} {k : Nat} (h : cs[k]? = some d)
    (f : Node String → Node String) : beqAll cs (cs.modify k f) = beq d (f d) := by
  induction cs generalizing k with
  | nil => cases h
  | cons c cs ih =>
    cases k with
    | zero =>
      cases h
      rw [List.modify_zero_cons, beqAll, beqAll_self, Bool.and_true]
    | succ k => rw [List.modify_succ_cons, beqAll, beq_self, Bool.true_and, ih h]

/-- A tree in which one node gives way is compared as the two nodes are. -/
theorem beq_replaceAt {n old : Node String} {path : List Nat} (h : n.at? path = some old)
    (m : Node String) : beq n (n.replaceAt path m) = beq old m := by
  induction path generalizing n with
  | nil =>
    cases (at?_nil n).symm.trans h
    rw [replaceAt_nil]
  | cons k path ih =>
    obtain ⟨i, c, cs, d, rfl, hd, hold⟩ := at?_cons_eq_some h
    rw [replaceAt_group_cons, beq_group, beqAll_modify hd, ih hold, beq_self_eq_true, beq_self_eq_true,
      Bool.true_and, Bool.true_and]

end Node

namespace Group

/-- A tree without the signs of its zeros. -/
def unsignedZeros (t : Tree) : Tree := { t with children := Node.unsignedAll t.children }

/-- Two trees are equal if they are the same without the signs of their zeros. -/
theorem beq_iff (t u : Tree) : (t == u) = true ↔ t.unsignedZeros = u.unsignedZeros := by
  have hparts : (t == u) = (t.id == u.id && t.combinator == u.combinator &&
      Node.beqAll t.children u.children) := rfl
  simp only [hparts, Bool.and_eq_true, beq_iff_eq, Node.beqAll_iff, unsignedZeros, mk.injEq, and_assoc]

/-- Trees are compared as nodes. -/
theorem beq_eq_beq_toNode (t u : Tree) : (t == u) = Node.beq t.toNode u.toNode := rfl

/-- A tree equals itself. -/
theorem beq_self (t : Tree) : (t == t) = true := (beq_iff t t).2 rfl

/-- Equal trees have the same ids. -/
theorem ids_of_beq {t u : Tree} (h : (t == u) = true) : t.ids = u.ids := by
  rw [beq_eq_beq_toNode] at h
  exact Node.ids_of_beq h

/-- Trees with different ids differ. -/
theorem beq_of_ids_ne {t u : Tree} (h : t.ids ≠ u.ids) : (t == u) = false :=
  Bool.eq_false_iff.2 fun he => h (ids_of_beq he)

/-- A tree in which a node has given way is compared with the one before as the two nodes are. -/
theorem beq_replaceAt {t u : Tree} {old m : Node String} {path : List Nat}
    (h : t.toNode.at? path = some old) (hu : u.toNode = t.toNode.replaceAt path m) :
    (t == u) = Node.beq old m := by
  rw [beq_eq_beq_toNode, hu, Node.beq_replaceAt h]

/-- A group with one more child is another group. -/
theorem beq_push (g : Tree) (n : Node String) : Node.beq g.toNode (g.push n).toNode = false := by
  refine beq_of_ids_ne (u := g.push n) fun h => n.ids_ne_nil ?_
  rw [ids_push] at h
  exact List.append_right_eq_self.1 h.symm

/-- A patch makes another group just if it sets another combinator. -/
theorem beq_apply (g : Tree) (p : GroupPatch) :
    Node.beq g.toNode (p.apply g).toNode = !p.combinator.any (· ≠ g.combinator) := by
  obtain ⟨c⟩ := p
  cases c with
  | none => simp [toNode, GroupPatch.apply, Node.beq_self]
  | some c =>
    have hc : (g.combinator == c) = decide (c = g.combinator) := BEq.comm
    simp [toNode, GroupPatch.apply, Node.beq_group, Node.beqAll_self, hc]

end Group

/-- A patch that sets no other combinator leaves a group as it is. -/
theorem GroupPatch.apply_eq_self {p : GroupPatch} {g : Tree}
    (h : p.combinator.any (· ≠ g.combinator) = false) : p.apply g = g := by
  obtain ⟨c⟩ := p
  cases c with
  | none => rfl
  | some c =>
    have hc : c = g.combinator := by simpa using h
    rw [hc]
    rfl

end Sieve
