import Sieve.Fields
import Sieve.Filter.Wire
import Sieve.Json.Printer

/-!
# The store

A store owns one filter tree and publishes every change of it.

* A change builds a new tree and publishes it at once: the owner, the readers and the watchers all
  get the same tree, and the version grows by one.
* An operation that would leave the tree as it is, by the equality of trees, publishes nothing.
* A node is added as the last child of a group; without a parent that is the root.  The parent has
  to be the first node of its id.
* `Store.ofText` reads a tree back from the text that `Store.text` writes.

A store publishes in a cell, which it shares with its readers.  A `Reader` has no tree of its own: it names
the cell, and gets what is there.  No operation gives a store another cell.  A `Channel` holds the latest
published tree and counts publications; a `Subscription` remembers how many its holder has seen.

`Store.version` and `Channel.revision` stand for words of 64 bits: what is said of them is meant for stores
that have been changed fewer than `2 ^ 64` times.
-/

namespace Sieve

/-- The latest published tree and the number of publications since the beginning, of which there are fewer
than `2 ^ 64`. -/
structure Channel where
  latest : Tree
  revision : Nat

/-- Publishes a tree to the watchers. -/
def Channel.send (c : Channel) (t : Tree) : Channel := ⟨t, c.revision + 1⟩

/-- The publications that a watcher has seen. -/
structure Subscription where
  seen : Nat
  deriving DecidableEq, Repr

/-- What is in the cells where stores publish, by number. -/
abbrev Cells := Nat → Tree

/-- Writes a tree in a cell. -/
def Cells.write (cells : Cells) (i : Nat) (t : Tree) : Cells := fun j => if j = i then t else cells j

/-- A handle for reading, which names the cell of a store. -/
structure Reader where
  cell : Nat
  deriving DecidableEq, Repr

/-- A store: its tree, the cells and the number of its own, the channel of its watchers, the number of
changes, of which there are fewer than `2 ^ 64`, and the ids for new nodes. -/
structure Store where
  tree : Tree
  cells : Cells
  cell : Nat
  channel : Channel
  version : Nat
  ids : IdSupply

/-- Why an operation of a store fails. -/
inductive StoreError
  | parentNotFound (id : String)
  | unreadable (e : DecodeError)
  deriving DecidableEq, Repr

/-- The wording of an error; a text that breaks the grammar has none. -/
def StoreError.message? : StoreError → Option String
  | parentNotFound id => some ("父节点不存在或不是分组: " ++ id)
  | unreadable e => e.message?.map ("JSON 序列化错误: " ++ ·)

namespace Store

/-! ### Making a store -/

/-- A store of a given tree, which is in its cell from the first. -/
def ofTree (ids : IdSupply) (t : Tree) : Store := ⟨t, fun _ => t, 0, ⟨t, 0⟩, 0, ids⟩

/-- A store of an empty `and` group. -/
def empty (ids : IdSupply) : Store :=
  let (root, ids) := (Group.draft .and).assign ids
  ofTree ids root

/-- A store of the tree in a text. -/
def ofText (ids : IdSupply) (text : String) : Except StoreError Store :=
  match Decode.ofText Group.read text with
  | .ok t => .ok (ofTree ids t)
  | .error e => .error (.unreadable e)

/-- A store of the initial tree of a configuration. -/
def ofConfig (ids : IdSupply) (c : FilterConfig) : Store :=
  let (t, ids) := c.initialTree ids
  ofTree ids t

/-! ### Changes -/

/-- Publishes a new tree. -/
def commit (s : Store) (t : Tree) : Store :=
  { s with
    tree := t
    cells := s.cells.write s.cell t
    channel := s.channel.send t
    version := s.version + 1 }

/-- Publishes a new tree if there is one. -/
def commit? (s : Store) : Option Tree → Store
  | some t => s.commit t
  | none => s

/-- Adds a draft below a group, the root if none is given, and says its id. -/
def add (s : Store) (draft : Node Unit) (parent : Option String) : Except StoreError (String × Store) :=
  let parent := parent.getD s.tree.id
  match s.tree.findGroup? parent with
  | none => .error (.parentNotFound parent)
  | some _ =>
    let (n, ids) := draft.assign s.ids
    .ok (n.id, { s with ids := ids }.commit? (s.tree.modifyGroup? parent (·.push n)))

/-- Adds a rule. -/
def addRule (s : Store) (draft : Rule Unit) (parent : Option String) :
    Except StoreError (String × Store) := s.add (.rule draft) parent

/-- Adds a group with everything below it. -/
def addGroup (s : Store) (draft : Group Unit) (parent : Option String) :
    Except StoreError (String × Store) := s.add draft.toNode parent

/-- Changes a rule and says whether there is one. -/
def updateRule (s : Store) (id : String) (p : RulePatch) : Bool × Store :=
  match s.tree.findRule? id with
  | none => (false, s)
  | some r =>
    let changed := p.apply r
    if changed == r then (true, s)
    else (true, s.commit? (s.tree.modifyRule? id fun _ => changed))

/-- Changes a group and says whether there is one. -/
def updateGroup (s : Store) (id : String) (p : GroupPatch) : Bool × Store :=
  match s.tree.findGroup? id with
  | none => (false, s)
  | some g =>
    if p.combinator.any (· ≠ g.combinator) then
      (true, s.commit? (s.tree.modifyGroup? id p.apply))
    else (true, s)

/-- Takes out a node of an accepted kind with everything below it. -/
def remove (s : Store) (id : String) (kind : Option Kind) : Option (Node String) × Store :=
  if s.tree.contains id then
    match s.tree.remove? id kind with
    | some (n, t) => (some n, s.commit t)
    | none => (none, s)
  else (none, s)

/-- Puts another tree in place. -/
def replace (s : Store) (t : Tree) : Store := if s.tree == t then s else s.commit t

/-- Takes out everything below the root. -/
def reset (s : Store) : Store := s.replace { s.tree with children := [] }

/-! ### Reading and watching -/

/-- A reader of what is published. -/
def reader (s : Store) : Reader := ⟨s.cell⟩

/-- The tree that a reader gets now. -/
def load (s : Store) (r : Reader) : Tree := s.cells r.cell

/-- A subscription to the publications from now on. -/
def subscribe (s : Store) : Subscription := ⟨s.channel.revision⟩

/-- Whether there are publications that a watcher has not seen. -/
def hasChanged (s : Store) (w : Subscription) : Bool := w.seen ≠ s.channel.revision

/-! ### Text -/

/-- The tree in JSON, with members in order of their names. -/
def toJson (s : Store) : Json := s.tree.encode.sorted

/-- The tree as indented text. -/
def text (s : Store) : String := s.tree.encode.indented

end Store

end Sieve
