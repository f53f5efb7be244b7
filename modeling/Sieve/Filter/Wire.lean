import Sieve.Filter.Draft

/-!
# Filter trees as JSON

A rule is an object with the members `id`, `field`, `op`, `value`, `component` and, if there is
something in it, `meta`; a group has `id`, `combinator` and `children`.  A child also says its
`kind`, first of all.  Drafts have no `id`.

* `Node.encode`, `Group.encode`, `Rule.encode`: the members in the order just given;
* `Node.read`, `Group.read`, `Mark.readRule`: the decoders.  `combinator` may be missing and is
  `and` then, `children` may be missing, and so may `value`, which is then the default of the
  component;
* a node is decoded in two passes: one finds its `kind` and sets the other members aside, one
  decodes them as that kind;
* `RulePatch` and `GroupPatch` are records all of whose members may be missing.  Null counts as
  missing, except as the value of a rule.
-/

namespace Sieve

open Decode

/-! ### Rules -/

/-- A rule of which some members have been read. -/
structure RuleParts where
  field : Option String := none
  op : Option String := none
  value : Option Json := none
  component : Option String := none
  extra : Option (Option (List (String × Json))) := none

/-- The fields of a rule without id. -/
def RuleParts.fields : List (RecordField RuleParts) :=
  [⟨"field", (·.field.isSome), fun _ s a => do return { a with field := ← readString s }⟩,
   ⟨"op", (·.op.isSome), fun _ s a => do return { a with op := ← readString s }⟩,
   ⟨"value", (·.value.isSome), fun o s a => do return { a with value := ← readJson o s }⟩,
   ⟨"component", (·.component.isSome), fun _ s a => do return { a with component := ← readString s }⟩,
   ⟨"meta", (·.extra.isSome), fun o s a => do return { a with extra := some (← readOption (readObject o) s) }⟩]

/-- The rule of the members that have been read; a missing value is the component's default. -/
def RuleParts.finish (missing : String → DecodeError) (a : RuleParts) :
    Except DecodeError (Rule Unit) := do
  let field ← required missing "field" a.field
  let op ← required missing "op" a.op
  let component ← required missing "component" a.component
  return ⟨(), field, op, a.value.getD (Component.defaultValue component), component,
    a.extra.getD none⟩

/-- Decodes a rule without id. -/
def readDraftRule : Decoder (Rule Unit) := readRecord RuleParts.fields {} RuleParts.finish

/-- Finds the id of a rule and sets its other members aside. -/
def readRuleId (o : Origin) :
    List (Option String × Source) → Option String → Except DecodeError (Option String)
  | [], id => .ok id
  | (name, s) :: ss, id => do
    let k ← readName name
    if k = "id" then
      if id.isSome then .error (.duplicateField k)
      else
        let i ← readString s
        readRuleId o ss (some i)
    else
      setAside o s
      readRuleId o ss id

/-- Decodes a rule with its id, which is looked for before the other members are decoded. -/
def readStoredRule : Decoder (Rule String)
  | o, .object members ending => do
    let o ← o.enter
    let found ← readRuleId o members none
    ending.close
    let id ← required .missingField "id" found
    let a ← readFields RuleParts.fields .buffered members {}
    let r ← a.finish .missingField
    return r.mapId fun _ => id
  | _, s => .error (mismatch s)

/-- The form of a mark in JSON: the mark of a node whose members say nothing about it, the mark of
an id, the members that tell a mark, and the decoder of rules so marked. -/
class Mark (ι : Type) where
  fixed : Option ι
  ofId : String → ι
  members : ι → List (String × Json)
  readRule : Decoder (Rule ι)

/-- Ids are told by the member `id`. -/
instance : Mark String := ⟨none, id, fun i => [("id", .str i)], readStoredRule⟩

/-- Drafts tell nothing about ids. -/
instance : Mark Unit := ⟨some (), fun _ => (), fun _ => [], readDraftRule⟩

variable {ι : Type} [Mark ι]

/-! ### Encoding -/

/-- The members of a rule. -/
def Rule.members (r : Rule ι) : List (String × Json) :=
  Mark.members r.id ++
    [("field", .str r.field), ("op", .str r.op), ("value", r.value), ("component", .str r.component)] ++
    (match r.extra with
      | some ms => [("meta", .obj ms)]
      | none => [])

/-- A rule in JSON. -/
def Rule.encode (r : Rule ι) : Json := .obj r.members

mutual

/-- A node in JSON, with its kind. -/
def Node.encode : Node ι → Json
  | .rule r => .obj (("kind", .str "rule") :: r.members)
  | .group i c cs =>
    .obj (("kind", .str "group") :: Mark.members i ++
      [("combinator", .str c.name), ("children", .arr (Node.encodeAll cs))])

/-- A row of nodes in JSON. -/
def Node.encodeAll : List (Node ι) → List Json
  | [] => []
  | n :: ns => Node.encode n :: Node.encodeAll ns

end

/-- A group in JSON, without its kind. -/
def Group.encode (g : Group ι) : Json :=
  .obj (Mark.members g.id ++
    [("combinator", .str g.combinator.name), ("children", .arr (Node.encodeAll g.children))])

/-! ### Decoding -/

/-- A combinator is any string. -/
def Combinator.read (s : Source) : Except DecodeError Combinator :=
  (readString s).map Combinator.ofName

/-- The kind of a node, by name; in a buffer also by its place in the list of kinds. -/
def Kind.read : Decoder Kind
  | _, .string (some "rule") => .ok .rule
  | _, .string (some "group") => .ok .group
  | _, .string (some s) => .error (.unknownVariant s ["rule", "group"])
  | .buffered, .number (some (.integer i _)) =>
    if i = 0 then .ok .rule
    else if i = 1 then .ok .group
    else if 0 < i then .error .invalidValue
    else .error .invalidType
  | _, s => .error (mismatch s)

/-- Finds the kind of a node and sets its other members aside. -/
def readKind (o : Origin) :
    List (Option String × Source) → Option Kind → Except DecodeError (Option Kind)
  | [], kind => .ok kind
  | (name, s) :: ss, kind => do
    let k ← readName name
    if k = "kind" then
      if kind.isSome then .error (.duplicateField k)
      else
        let found ← Kind.read o s
        readKind o ss (some found)
    else
      setAside o s
      readKind o ss kind

/-- Sets items aside. -/
def setAsideAll (o : Origin) : List Source → Except DecodeError Unit
  | [] => .ok ()
  | s :: ss => do
    setAside o s
    setAsideAll o ss

/-- A group of which some members have been read. -/
structure GroupParts (ι : Type) where
  id : Option ι
  combinator : Option Combinator := none
  children : Option (List (Node ι)) := none

/-- A group before any member is read. -/
def GroupParts.start : GroupParts ι := { id := Mark.fixed }

/-- The group of the members that have been read. -/
def GroupParts.finish (missing : String → DecodeError) (a : GroupParts ι) :
    Except DecodeError (Group ι) := do
  let id ← required missing "id" a.id
  return ⟨id, a.combinator.getD .and, a.children.getD []⟩

/-- The place of the first member of a group in an array: the id, or the combinator of a draft. -/
def firstPlace (ι : Type) [Mark ι] : Nat := if (Mark.fixed (ι := ι)).isNone then 0 else 1

mutual

/-- Decodes a node. -/
def Node.read : Decoder (Node ι)
  | o, .object members ending => do
    let o ← o.enter
    let found ← readKind o members none
    ending.close
    match ← required .missingField "kind" found with
    | .rule => (Mark.readRule .buffered (.object members .closed)).map .rule
    | .group =>
      let a ← readGroupMembers .buffered members .start
      let g ← a.finish .missingField
      return g.toNode
  | o, .array items ending => do
    let o ← o.enter
    match items with
    | [] =>
      ending.close
      .error (.missingField "kind")
    | tag :: rest =>
      let kind ← Kind.read o tag
      setAsideAll o rest
      ending.close
      match kind with
      | .rule => (Mark.readRule .buffered (.array rest .closed)).map .rule
      | .group =>
        let (a, left) ← readGroupItems .buffered (firstPlace ι) rest .start
        closeRecord .buffered left .closed
        let g ← a.finish fun _ => .invalidLength
        return g.toNode
  | _, s => .error (mismatch s)

/-- Decodes a row of nodes. -/
def Node.readAll (o : Origin) : List Source → Except DecodeError (List (Node ι))
  | [] => .ok []
  | s :: ss => do
    let n ← Node.read o s
    let ns ← Node.readAll o ss
    return n :: ns

/-- Decodes the children of a group. -/
def readChildren : Decoder (List (Node ι))
  | o, .array items ending => do
    let o ← o.enter
    let ns ← Node.readAll o items
    ending.close
    return ns
  | _, s => .error (mismatch s)

/-- Reads the members of a group. -/
def readGroupMembers (o : Origin) :
    List (Option String × Source) → GroupParts ι → Except DecodeError (GroupParts ι)
  | [], a => .ok a
  | (name, s) :: ss, a => do
    let k ← readName name
    if k = "id" ∧ (Mark.fixed (ι := ι)).isNone then
      if a.id.isSome then .error (.duplicateField k)
      else
        let i ← readString s
        readGroupMembers o ss { a with id := some (Mark.ofId i) }
    else if k = "combinator" then
      if a.combinator.isSome then .error (.duplicateField k)
      else
        let c ← Combinator.read s
        readGroupMembers o ss { a with combinator := some c }
    else if k = "children" then
      if a.children.isSome then .error (.duplicateField k)
      else
        let cs ← readChildren o s
        readGroupMembers o ss { a with children := some cs }
    else
      skip s
      readGroupMembers o ss a

/-- Reads the items of an array as the members of a group from the given one on, and says which
items are left over, or `none` if the members were not used up. -/
def readGroupItems (o : Origin) : Nat → List Source → GroupParts ι →
    Except DecodeError (GroupParts ι × Option (List Source))
  | place, [], a => .ok (a, if place < 3 then none else some [])
  | 0, s :: ss, a => do
    let i ← readString s
    readGroupItems o 1 ss { a with id := some (Mark.ofId i) }
  | 1, s :: ss, a => do
    let c ← Combinator.read s
    readGroupItems o 2 ss { a with combinator := some c }
  | 2, s :: ss, a => do
    let cs ← readChildren o s
    readGroupItems o 3 ss { a with children := some cs }
  | _ + 3, s :: ss, a => .ok (a, some (s :: ss))

end

/-- Decodes a group that is known to be one. -/
def Group.read : Decoder (Group ι)
  | o, .object members ending => do
    let o ← o.enter
    let a ← readGroupMembers o members .start
    ending.close
    a.finish .missingField
  | o, .array items ending => do
    let o ← o.enter
    let (a, left) ← readGroupItems o (firstPlace ι) items .start
    closeRecord o left ending
    a.finish fun _ => .invalidLength
  | _, s => .error (mismatch s)

/-! ### Patches -/

/-- A patch of which some members have been read. -/
structure PatchParts where
  field : Option (Option String) := none
  op : Option (Option String) := none
  value : Option Json := none
  component : Option (Option String) := none
  extra : Option (Option (List (String × Json))) := none

/-- The fields of a patch of a rule. -/
def PatchParts.fields : List (RecordField PatchParts) :=
  [⟨"field", (·.field.isSome), fun _ s a => do return { a with field := some (← readOption readString s) }⟩,
   ⟨"op", (·.op.isSome), fun _ s a => do return { a with op := some (← readOption readString s) }⟩,
   ⟨"value", (·.value.isSome), fun o s a => do return { a with value := ← readJson o s }⟩,
   ⟨"component", (·.component.isSome),
     fun _ s a => do return { a with component := some (← readOption readString s) }⟩,
   ⟨"meta", (·.extra.isSome), fun o s a => do return { a with extra := some (← readOption (readObject o) s) }⟩]

/-- Decodes a patch of a rule. -/
def RulePatch.read : Decoder RulePatch :=
  readRecord PatchParts.fields {} fun _ a =>
    .ok ⟨a.field.getD none, a.op.getD none, a.value, a.component.getD none, a.extra.getD none⟩

/-- Decodes a patch of a group. -/
def GroupPatch.read : Decoder GroupPatch :=
  readRecord (α := Option (Option Combinator))
    [⟨"combinator", (·.isSome), fun _ s _ => (readOption Combinator.read s).map some⟩] none
    fun _ a => .ok ⟨a.getD none⟩

/-- A member that may be missing, which is written as null. -/
def optional {α : Type} (encode : α → Json) : Option α → Json
  | some a => encode a
  | none => .null

/-- A patch of a rule in JSON, where every missing member is null. -/
def RulePatch.encode (p : RulePatch) : Json :=
  .obj [("field", optional .str p.field), ("op", optional .str p.op), ("value", optional id p.value),
    ("component", optional .str p.component), ("meta", optional .obj p.extra)]

/-- A patch of a group in JSON. -/
def GroupPatch.encode (p : GroupPatch) : Json :=
  .obj [("combinator", optional (.str ·.name) p.combinator)]

end Sieve
