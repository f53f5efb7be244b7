import Mathlib.Logic.Relation
import Sieve.Proofs.Tree.TextForms

/-!
# Members that may be left out

A short form of a tree and a long one say the same: members of unknown names, defaults that are told, and a null
`meta` may stand in any of the objects or not.

* `Rule.Spare`, `Group.Spare`: the members of a rule and of a group that may be left out;
* `Node.Grows`, `Group.Grows`: one such member more, in the object itself or in that of a node below it, be the
  groups on the way to it objects or arrays;
* `Node.Grows.readAlike`, `Group.Grows.readAlike`: one member more, by induction on the way to it.  What an object
  says is told by lookups, which do not see the member;
* `Group.forms_alike`: any number of members more or less.
-/

namespace Sieve

open Decode

/-! ### Members that may be left out -/

section

variable (ι : Type) [Mark ι]

/-- A member of a rule may be left out if no rule knows its name, if it is a null `meta`, or if it is the value
that is the default of the component. -/
inductive Rule.Spare (ms : List (String × Json)) : String × Json → Prop
  | unknown {name : String} {j : Json} (h : name ∉ Node.names ι .rule) : Spare ms (name, j)
  | extra : Spare ms ("meta", .null)
  | value {component : String} (h : ("component", .str component) ∈ ms) :
    Spare ms ("value", Component.defaultValue component)

/-- A member of a group may be left out if its name is not among those that are known, if it is the combinator
`and`, or if it is a list of no children. -/
inductive Group.Spare (known : List String) : String × Json → Prop
  | unknown {name : String} {j : Json} (h : name ∉ known) : Spare known (name, j)
  | combinator : Spare known ("combinator", .str "and")
  | children : Spare known ("children", .arr [])

/-- A node gets one member that may be left out, or a node below it does.  The kind of a node is what is read for
it from a buffer, and a group may be an object or an array.  Only names that are not known may be repeated. -/
inductive Node.Grows : Json → Json → Prop
  | rule {before after : List (String × Json)} {m : String × Json} {kind : Json}
    (once : ∀ name ∈ Node.names ι .rule, Keyed.Once name (before ++ m :: after))
    (told : ("kind", kind) ∈ before ++ after)
    (isRule : Kind.read .buffered (Source.ofJson kind) = .ok .rule) (spare : Rule.Spare ι (before ++ after) m) :
    Grows (.obj (before ++ after)) (.obj (before ++ m :: after))
  | group {before after : List (String × Json)} {m : String × Json} {kind : Json}
    (once : ∀ name ∈ Node.names ι .group, Keyed.Once name (before ++ m :: after))
    (told : ("kind", kind) ∈ before ++ after)
    (isGroup : Kind.read .buffered (Source.ofJson kind) = .ok .group)
    (spare : Group.Spare (Node.names ι .group) m) :
    Grows (.obj (before ++ after)) (.obj (before ++ m :: after))
  | child {before after : List (String × Json)} {xs ys : List Json} {x x' kind : Json}
    (once : ∀ name ∈ Node.names ι .group, Keyed.Once name (before ++ ("children", .arr (xs ++ x :: ys)) :: after))
    (told : ("kind", kind) ∈ before ++ after)
    (isGroup : Kind.read .buffered (Source.ofJson kind) = .ok .group) (below : Grows x x') :
    Grows (.obj (before ++ ("children", .arr (xs ++ x :: ys)) :: after))
      (.obj (before ++ ("children", .arr (xs ++ x' :: ys)) :: after))
  | item {front xs ys : List Json} {x x' kind : Json} (place : firstPlace ι + front.length = 2)
    (isGroup : Kind.read .buffered (Source.ofJson kind) = .ok .group) (below : Grows x x') :
    Grows (.arr (kind :: (front ++ [.arr (xs ++ x :: ys)]))) (.arr (kind :: (front ++ [.arr (xs ++ x' :: ys)])))

/-- A tree gets one member that may be left out, or a node of it does. -/
inductive Group.Grows : Json → Json → Prop
  | member {before after : List (String × Json)} {m : String × Json}
    (once : ∀ name ∈ GroupParts.names ι, Keyed.Once name (before ++ m :: after))
    (spare : Group.Spare (GroupParts.names ι) m) :
    Grows (.obj (before ++ after)) (.obj (before ++ m :: after))
  | child {before after : List (String × Json)} {xs ys : List Json} {x x' : Json}
    (once : ∀ name ∈ GroupParts.names ι, Keyed.Once name (before ++ ("children", .arr (xs ++ x :: ys)) :: after))
    (below : Node.Grows ι x x') :
    Grows (.obj (before ++ ("children", .arr (xs ++ x :: ys)) :: after))
      (.obj (before ++ ("children", .arr (xs ++ x' :: ys)) :: after))
  | item {front xs ys : List Json} {x x' : Json} (place : firstPlace ι + front.length = 2)
    (below : Node.Grows ι x x') :
    Grows (.arr (front ++ [.arr (xs ++ x :: ys)])) (.arr (front ++ [.arr (xs ++ x' :: ys)]))

end

section

variable {ι : Type} [Mark ι] {before after : List (String × Json)} {name : String} {j : Json} {m : String × Json}

/-! ### What they say of a rule and of a group -/

/-- Only the id tells a mark. -/
theorem Mark.saidBy_append_cons_iff {i : ι} (h : name ∉ Mark.names ι) :
    SaidBy (before ++ (name, j) :: after) i ↔ SaidBy (before ++ after) i := by
  rw [SaidBy, SaidBy]
  cases hfixed : (Mark.fixed : Option ι) with
  | some _ => exact Iff.rfl
  | none =>
    have hname : name ≠ "id" := by simpa [Mark.names, hfixed] using h
    simp only [Keyed.lookup_append_cons_of_ne hname]

theorem Mark.not_mem_names (h : name ≠ "id") : name ∉ names ι := by
  rw [names]
  split <;> simp [h]

/-- What may be left out of a rule tells neither its mark nor its kind. -/
theorem Rule.Spare.not_mem_names (h : Rule.Spare ι (before ++ after) m) : m.1 ∉ "kind" :: Mark.names ι := by
  cases h with
  | unknown h => exact fun hmem => h (List.cons_subset_cons _ (List.subset_append_left _ _) hmem)
  | extra => exact List.not_mem_cons_of_ne_of_not_mem (by decide) (Mark.not_mem_names (by decide))
  | value => exact List.not_mem_cons_of_ne_of_not_mem (by simp) (Mark.not_mem_names (by simp))

/-- It says nothing of the rule. -/
theorem Rule.madeOf_append_cons_iff (once : ∀ name ∈ Node.names ι .rule, Keyed.Once name (before ++ m :: after))
    (spare : Rule.Spare ι (before ++ after) m) {r : Rule ι} :
    r.MadeOf (before ++ m :: after) ↔ r.MadeOf (before ++ after) := by
  cases spare with
  | unknown h =>
    simp only [Node.names, RuleParts.names, List.mem_cons, List.mem_append, List.not_mem_nil, or_false, not_or] at h
    obtain ⟨-, -, hfield, hop, hvalue, hcomponent, hmeta⟩ := h
    simp (disch := assumption) only [Rule.madeOf_iff, Keyed.lookup_append_cons_of_ne]
  | extra =>
    obtain ⟨hwith, hwithout⟩ := (once "meta" (by simp [Node.names, RuleParts.names])).lookup_self
    simp (disch := decide) only [Rule.madeOf_iff, Keyed.lookup_append_cons_of_ne, hwith, hwithout, Option.getD_some,
      Option.getD_none]
  | value h =>
    obtain ⟨hwith, hwithout⟩ := (once "value" (by simp [Node.names, RuleParts.names])).lookup_self
    have hcomponent := (once "component" (by simp [Node.names, RuleParts.names])).of_append_cons.lookup_of_mem h
    simp (disch := decide) only [Rule.madeOf_iff, Keyed.lookup_append_cons_of_ne, hwith, hwithout, hcomponent,
      Option.map_some, Option.map_none, Option.getD_some, Option.getD_none, Component.sorted_defaultValue,
      Option.some.injEq, Json.str.injEq]
    -- the component is said, so the default is that of the rule
    exact and_congr_right fun _ => and_congr_right fun _ => and_congr_right fun hc => by rw [hc]

/-- What may be left out of a group says nothing of it. -/
theorem Group.madeOf_append_cons_iff {known : List String} (hknown : GroupParts.names ι ⊆ known)
    (once : ∀ name ∈ known, Keyed.Once name (before ++ m :: after)) (spare : Group.Spare known m) {o : Origin}
    {g : Group ι} :
    g.MadeOf o (before ++ m :: after) ↔ g.MadeOf o (before ++ after) := by
  cases spare with
  | unknown h =>
    obtain ⟨hid, hother⟩ := not_or.1 fun hmem => h (hknown (List.mem_append.2 hmem))
    simp only [List.mem_cons, List.not_mem_nil, or_false, not_or] at hother
    obtain ⟨hcombinator, hchildren⟩ := hother
    simp (disch := assumption) only [Group.madeOf_iff, Mark.saidBy_append_cons_iff, Keyed.lookup_append_cons_of_ne]
  | combinator =>
    obtain ⟨hwith, hwithout⟩ := (once "combinator" (hknown (by simp [GroupParts.names]))).lookup_self
    have hid : "combinator" ∉ Mark.names ι := Mark.not_mem_names (by decide)
    simp (disch := first | assumption | decide) only [Group.madeOf_iff, Mark.saidBy_append_cons_iff,
      Keyed.lookup_append_cons_of_ne, hwith, hwithout, Option.getD_some, Option.getD_none]
  | children =>
    obtain ⟨hwith, hwithout⟩ := (once "children" (hknown (by simp [GroupParts.names]))).lookup_self
    have hid : "children" ∉ Mark.names ι := Mark.not_mem_names (by decide)
    simp (disch := first | assumption | decide) only [Group.madeOf_iff, Mark.saidBy_append_cons_iff,
      Keyed.lookup_append_cons_of_ne, hwith, hwithout, Option.getD_some, Option.getD_none]

/-! ### Values that are decoded alike -/

namespace Decode

/-- Two values that a decoder accepts alike and decodes to the same, from wherever there is room for them. -/
def Alike {α : Type} (read : Decoder α) (j j' : Json) : Prop :=
  ∀ o : Origin, o.admits j.depth = true → o.admits j'.depth = true →
    ∀ a, read o (Source.ofJson j) = .ok a ↔ read o (Source.ofJson j') = .ok a

/-- They are decoded alike wherever sources are entered for nothing. -/
def ReadAlike {α : Type} (read : Decoder α) (x x' : Json) : Prop :=
  ∀ o : Origin, o.enter = .ok o → ∀ a, read o (Source.ofJson x) = .ok a ↔ read o (Source.ofJson x') = .ok a

variable {α : Type} {read : Decoder α} {j j' : Json}

/-- To be decoded alike is an equivalence. -/
theorem ReadAlike.of_eqvGen {Grows : Json → Json → Prop} (hstep : ∀ x x', Grows x x' → ReadAlike read x x')
    (h : Relation.EqvGen Grows j j') : ReadAlike read j j' := by
  induction h with
  | rel x x' h => exact hstep x x' h
  | refl _ => exact fun _ _ _ => Iff.rfl
  | symm _ _ _ ih => exact fun o ho a => (ih o ho a).symm
  | trans _ _ _ _ _ ih ih' => exact fun o ho a => (ih o ho a).trans (ih' o ho a)

/-- A text that has room for two values decodes them alike if it decodes each as the value. -/
theorem ReadAlike.alike (htext : ∀ (room : Nat) (j : Json), Origin.admits (.text room) j.depth = true →
      ∀ a, read (.text room) (Source.ofJson j) = .ok a ↔ read .value (Source.ofJson j) = .ok a)
    (h : ReadAlike read j j') : Alike read j j' := by
  intro o hj hj' a
  cases o with
  | text room => exact (htext room j hj a).trans ((h .value rfl a).trans (htext room j' hj' a).symm)
  | value => exact h .value rfl a
  | buffered => exact h .buffered rfl a

end Decode

/-! ### Children -/

section

variable {o : Origin} {xs ys : List Json} {x x' : Json}

/-- One child of a row may be read for another. -/
theorem Node.readAll_congr
    (h : ∀ n : Node ι, Node.read o (Source.ofJson x) = .ok n ↔ Node.read o (Source.ofJson x') = .ok n)
    {ns : List (Node ι)} : Node.readAll o (Source.ofItems (xs ++ x :: ys)) = .ok ns ↔
      Node.readAll o (Source.ofItems (xs ++ x' :: ys)) = .ok ns := by
  induction xs generalizing ns with
  | nil => simp only [List.nil_append, Source.ofItems, Node.readAll, bind_eq_ok, h]
  | cons y xs ih => simp only [List.cons_append, Source.ofItems, Node.readAll, bind_eq_ok, ih]

theorem readChildren_congr (ho : o.enter = .ok o) (h : ReadAlike (Node.read (ι := ι)) x x') {cs : List (Node ι)} :
    readChildren o (Source.ofJson (.arr (xs ++ x :: ys))) = .ok cs ↔
      readChildren o (Source.ofJson (.arr (xs ++ x' :: ys))) = .ok cs := by
  rw [readChildren_arr ho, readChildren_arr ho]
  exact Node.readAll_congr (h o ho)

/-- One child of a group may be read for another. -/
theorem Group.madeOf_child_iff (ho : o.enter = .ok o) (h : ReadAlike (Node.read (ι := ι)) x x')
    (once : Keyed.Once "children" (before ++ ("children", .arr (xs ++ x :: ys)) :: after)) {g : Group ι} :
    g.MadeOf o (before ++ ("children", .arr (xs ++ x :: ys)) :: after) ↔
      g.MadeOf o (before ++ ("children", .arr (xs ++ x' :: ys)) :: after) := by
  have hid : "children" ∉ Mark.names ι := Mark.not_mem_names (by decide)
  obtain ⟨hchildren, -⟩ := once.lookup_self
  obtain ⟨hchildren', -⟩ := (once.put (.arr (xs ++ x' :: ys))).lookup_self
  simp (disch := first | assumption | decide) only [Group.madeOf_iff, Mark.saidBy_append_cons_iff,
    Keyed.lookup_append_cons_of_ne, hchildren, hchildren', Option.getD_some, readChildren_congr ho h]

/-- So may one child in the array of a group, which is its last item. -/
theorem readGroupItems_congr (ho : o.enter = .ok o) (h : ReadAlike (Node.read (ι := ι)) x x') {place : Nat}
    {front : List Json} (hplace : place + front.length = 2) {a : GroupParts ι} {b : GroupParts ι × Option (List Source)} :
    readGroupItems o place (Source.ofItems (front ++ [.arr (xs ++ x :: ys)])) a = .ok b ↔
      readGroupItems o place (Source.ofItems (front ++ [.arr (xs ++ x' :: ys)])) a = .ok b := by
  induction front generalizing place a with
  | nil =>
    obtain rfl : place = 2 := hplace
    simp only [List.nil_append, Source.ofItems, readGroupItems, bind_eq_ok, readChildren_congr ho h]
  | cons y front ih =>
    rw [List.length_cons] at hplace
    obtain rfl | rfl : place = 0 ∨ place = 1 := by omega
    · simp only [List.cons_append, Source.ofItems, readGroupItems, bind_eq_ok, ih (show 1 + front.length = 2 by omega)]
    · simp only [List.cons_append, Source.ofItems, readGroupItems, bind_eq_ok, ih (show 2 + front.length = 2 by omega)]

end

/-! ### One member more -/

/-- The kind of an object with one member more, which is not the kind. -/
theorem lookup_kind_append_cons {kind : Json} (once : Keyed.Once "kind" (before ++ m :: after))
    (told : ("kind", kind) ∈ before ++ after) :
    Keyed.lookup "kind" (before ++ after) = some kind ∧ Keyed.lookup "kind" (before ++ m :: after) = some kind := by
  refine ⟨once.of_append_cons.lookup_of_mem told, once.lookup_of_mem ?_⟩
  rcases List.mem_append.1 told with hbefore | hafter
  · exact List.mem_append_left _ hbefore
  · exact List.mem_append_right _ (List.mem_cons_of_mem _ hafter)

/-- An array whose first item tells that it is a group is decoded as one, if that item is read. -/
theorem Node.read_arr_eq_ok_iff {o : Origin} (ho : o.enter = .ok o) {kind : Json} {items : List Json}
    (hk : Kind.read .buffered (Source.ofJson kind) = .ok .group) {n : Node ι} :
    Node.read o (Source.ofJson (.arr (kind :: items))) = .ok n ↔
      Kind.read o (Source.ofJson kind) = .ok .group ∧ ∃ a left,
        readGroupItems .buffered (firstPlace ι) (Source.ofItems items) .start = .ok (a, left) ∧
        closeRecord .buffered left .closed = .ok () ∧ ∃ g, a.finish (fun _ => .invalidLength) = .ok g ∧
          n = g.toNode := by
  have haside : setAsideAll o (Source.ofItems items) = .ok () :=
    setAsideAll_ofItems fun j _ => Origin.admits_of_enter ho j.depth
  rw [Source.ofJson, Source.ofItems, Node.read, ho]
  show (Kind.read o (Source.ofJson kind) >>= fun k => setAsideAll o (Source.ofItems items) >>= _) = _ ↔ _
  rw [haside, bind_eq_ok]
  constructor
  · rintro ⟨k, hk', h⟩
    cases hk.symm.trans (Kind.read_buffered hk')
    have h : (readGroupItems .buffered (firstPlace ι) (Source.ofItems items) .start >>= fun p =>
        closeRecord .buffered p.2 .closed >>= fun _ => p.1.finish (fun _ => .invalidLength) >>= fun g =>
          pure g.toNode) = .ok n := h
    obtain ⟨⟨a, left⟩, ha, h⟩ := bind_eq_ok.1 h
    obtain ⟨_, hclose, h⟩ := bind_eq_ok.1 h
    obtain ⟨g, hg, ⟨⟩⟩ := bind_eq_ok.1 h
    exact ⟨hk', a, left, ha, hclose, g, hg, rfl⟩
  · rintro ⟨hk', a, left, ha, hclose, g, hg, rfl⟩
    refine ⟨.group, hk', ?_⟩
    show (readGroupItems .buffered (firstPlace ι) (Source.ofItems items) .start >>= fun p =>
      closeRecord .buffered p.2 .closed >>= fun _ => p.1.finish (fun _ => .invalidLength) >>= fun g =>
        pure g.toNode) = .ok g.toNode
    exact bind_eq_ok.2 ⟨(a, left), ha, bind_eq_ok.2 ⟨(), hclose, bind_eq_ok.2 ⟨g, hg, rfl⟩⟩⟩

/-- **Step.**  A node with one member more is decoded to the same node. -/
theorem Node.Grows.readAlike [FaithfulMark ι] {x x' : Json} (h : Node.Grows ι x x') :
    ReadAlike (Node.read (ι := ι)) x x' := by
  induction h with
  | @rule before after m kind once told isRule spare =>
    intro o ho n
    obtain ⟨name, j⟩ := m
    obtain ⟨hkind, hkind'⟩ := lookup_kind_append_cons (once "kind" List.mem_cons_self) told
    have hid : name ∉ Mark.names ι := fun h => spare.not_mem_names (List.mem_cons_of_mem _ h)
    rw [Node.read_obj_eq_ok_iff ho once hkind' isRule,
      Node.read_obj_eq_ok_iff ho (fun k hk => (once k hk).of_append_cons) hkind isRule]
    simp only [Node.MadeOf, Rule.madeOf_append_cons_iff once spare, Mark.saidBy_append_cons_iff hid]
  | group once told isGroup spare =>
    intro o ho n
    obtain ⟨hkind, hkind'⟩ := lookup_kind_append_cons (once "kind" List.mem_cons_self) told
    rw [Node.read_obj_eq_ok_iff ho once hkind' isGroup,
      Node.read_obj_eq_ok_iff ho (fun k hk => (once k hk).of_append_cons) hkind isGroup]
    simp only [Node.MadeOf, Group.madeOf_append_cons_iff (List.subset_cons_self _ _) once spare]
  | @child before after xs ys x x' kind once told isGroup _ ih =>
    intro o ho n
    have once' := fun k hk => (once k hk).put (.arr (xs ++ x' :: ys))
    obtain ⟨-, hkind⟩ := lookup_kind_append_cons (once "kind" List.mem_cons_self) told
    obtain ⟨-, hkind'⟩ := lookup_kind_append_cons (once' _ List.mem_cons_self) told
    have hchildren := once "children" (by simp [Node.names, GroupParts.names])
    rw [Node.read_obj_eq_ok_iff ho once hkind isGroup, Node.read_obj_eq_ok_iff ho once' hkind' isGroup]
    simp only [Node.MadeOf, Group.madeOf_child_iff (o := .buffered) rfl ih hchildren]
  | item place isGroup _ ih =>
    intro o ho n
    rw [Node.read_arr_eq_ok_iff ho isGroup, Node.read_arr_eq_ok_iff ho isGroup]
    simp only [readGroupItems_congr (o := .buffered) rfl ih place]

/-- A tree with one member more is decoded to the same tree. -/
theorem Group.Grows.readAlike [FaithfulMark ι] {x x' : Json} (h : Group.Grows ι x x') :
    ReadAlike (Group.read (ι := ι)) x x' := by
  intro o ho g
  cases h with
  | member once spare =>
    rw [Group.read_obj_eq_ok_iff ho once, Group.read_obj_eq_ok_iff ho fun k hk => (once k hk).of_append_cons,
      Group.madeOf_append_cons_iff (List.Subset.refl _) once spare]
  | @child before after xs ys x x' once below =>
    have once' := fun k hk => (once k hk).put (.arr (xs ++ x' :: ys))
    have hchildren := once "children" (by simp [GroupParts.names])
    rw [Group.read_obj_eq_ok_iff ho once, Group.read_obj_eq_ok_iff ho once',
      Group.madeOf_child_iff ho below.readAlike hchildren]
  | item place below =>
    rw [Source.ofJson, Source.ofJson, Group.read, Group.read, ho]
    show (readGroupItems o _ _ _ >>= _) = _ ↔ (readGroupItems o _ _ _ >>= _) = _
    rw [bind_eq_ok, bind_eq_ok]
    simp only [readGroupItems_congr ho below.readAlike place]

/-! ### Any number of members more -/

section

variable [FaithfulMark ι] {j j' : Json}

/-- **Run.**  So is a node that has got any number of them, and has lost any number. -/
theorem Node.alike_of_eqvGen (h : Relation.EqvGen (Node.Grows ι) j j') : Alike (Node.read (ι := ι)) j j' :=
  ReadAlike.alike (fun _ _ hj _ => by rw [Node.read_text hj]) (.of_eqvGen (fun _ _ hx => hx.readAlike) h)

theorem Group.alike_of_eqvGen (h : Relation.EqvGen (Group.Grows ι) j j') : Alike (Group.read (ι := ι)) j j' :=
  ReadAlike.alike (fun _ _ hj _ => Group.read_text hj) (.of_eqvGen (fun _ _ hx => hx.readAlike) h)

end

end

/-- **Trees, nodes and their drafts are decoded to the same from values that differ only in members that may be left
out, of any number of the node objects at any depth.  If the one is accepted so is the other.** -/
theorem Group.forms_alike :
    (∀ j j', Relation.EqvGen (Group.Grows String) j j' → Alike (Group.read (ι := String)) j j') ∧
    (∀ j j', Relation.EqvGen (Node.Grows String) j j' → Alike (Node.read (ι := String)) j j') ∧
    (∀ j j', Relation.EqvGen (Group.Grows Unit) j j' → Alike (Group.read (ι := Unit)) j j') ∧
    ∀ j j', Relation.EqvGen (Node.Grows Unit) j j' → Alike (Node.read (ι := Unit)) j j' :=
  ⟨fun _ _ => Group.alike_of_eqvGen, fun _ _ => Node.alike_of_eqvGen, fun _ _ => Group.alike_of_eqvGen,
    fun _ _ => Node.alike_of_eqvGen⟩

/-- A rule that says what it must and something more. -/
def tagRule (more : List (String × Json)) : List (String × Json) :=
  [("kind", .str "rule"), ("id", .str "r"), ("field", .str "tags"), ("op", .str "in"),
    ("component", .str "multiselect")] ++ more

/-- A tree of the rule. -/
def tagTree (more : List (String × Json)) : Json :=
  .obj [("id", .str "root"), ("children", .arr [.obj (tagRule more)])]

/-- The tree grows with the rule. -/
theorem grows_tagTree (more : List (String × Json)) {m : String × Json}
    (once : ∀ name ∈ Node.names String .rule, Keyed.Once name (tagRule more ++ [m]))
    (spare : Rule.Spare String (tagRule more) m) :
    Group.Grows String (tagTree more) (tagTree (more ++ [m])) := by
  rw [← List.append_nil (tagRule more)] at spare
  have hrule := Node.Grows.rule once (List.mem_append_left _ List.mem_cons_self) rfl spare
  rw [List.append_nil] at hrule
  have hroot : ∀ name ∈ GroupParts.names String, ["id", "children"].count name ≤ 1 := by decide
  exact @Group.Grows.child String _ [("id", .str "root")] [] [] [] _ _ hroot hrule

/-- The shortest tree of the rule, and one with a null `meta`, the default value and a note. -/
theorem Group.forms_alike_tagTree :
    Decode.ofJson Group.read (tagTree []) = Decode.ofJson (Group.read (ι := String))
      (tagTree [("meta", .null), ("value", .arr []), ("note", .str "new")]) ∧
    Decode.ofJson Group.read (tagTree [("meta", .null), ("value", .arr []), ("note", .str "new")]) =
      .ok (⟨"root", .and, [.rule ⟨"r", "tags", "in", .arr [], "multiselect", none⟩]⟩ : Tree) := by
  have hmeta : Group.Grows String (tagTree []) (tagTree [("meta", .null)]) := grows_tagTree [] (by decide) .extra
  have hvalue : Group.Grows String (tagTree [("meta", .null)]) (tagTree [("meta", .null), ("value", .arr [])]) :=
    grows_tagTree [_] (by decide) (.value (show ("component", Json.str "multiselect") ∈ _ by simp [tagRule]))
  have hnote : Group.Grows String (tagTree [("meta", .null), ("value", .arr [])])
      (tagTree [("meta", .null), ("value", .arr []), ("note", .str "new")]) :=
    grows_tagTree [_, _] (by decide) (.unknown (by decide))
  have hall := ((Relation.EqvGen.rel _ _ hmeta).trans _ _ _ (.rel _ _ hvalue)).trans _ _ _ (.rel _ _ hnote)
  have hshort : Decode.ofJson Group.read (tagTree []) =
      .ok (⟨"root", .and, [.rule ⟨"r", "tags", "in", .arr [], "multiselect", none⟩]⟩ : Tree) := rfl
  have hlong := (Group.forms_alike.1 _ _ hall .value rfl rfl _).1 hshort
  exact ⟨hshort.trans hlong.symm, hlong⟩

end Sieve
