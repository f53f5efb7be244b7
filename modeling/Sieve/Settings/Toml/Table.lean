import Sieve.Settings.Layer

/-!
# Tables in TOML

A document is a row of statements.  `Toml.collect?` makes a table of them, in which nothing is set
twice.

* `[a.b]` opens the table `b` in `a`, which it makes if need be.  A table may be opened once, and a
  table that only came about on the way to another may still be opened;
* `[[a.b]]` opens a new table at the end of the list `b` in `a`, which has only such tables;
* `a.b = value` sets something in the table that was opened last.  The tables on its way are not open
  to headers from then on, and tables that were opened are not on the way of such a name.  It may
  lead through the last table of a list, but not end there.
-/

namespace Sieve.Toml

/-- What a document says, line by line. -/
inductive Statement
  | opens (path : List String)
  | appends (path : List String)
  | sets (path : List String) (value : Setting)

/-- How a table came about: on the way of a header, by its own header, or on the way of a dotted
name. -/
inductive Opening
  | implied
  | header
  | dotted
  deriving DecidableEq, Repr

/-- What a name stands for while a document is being read.  Of a list of tables the last is still
being read. -/
inductive Item
  | leaf (s : Setting)
  | table (o : Opening) (members : List (String × Item))
  | tables (before : List Setting) (last : List (String × Item))

/-- The names of a table that is being read. -/
abbrev Items := List (String × Item)

mutual

/-- What has been read, as a setting. -/
def Item.setting : Item → Setting
  | .leaf s => s
  | .table _ ms => .table (settingAll ms)
  | .tables before last => .list (before ++ [.table (settingAll last)])

/-- What has been read, name by name. -/
def settingAll : Items → Layer
  | [] => []
  | (name, i) :: rest => (name, i.setting) :: settingAll rest

end

/-- The table on the way of a path, given what its name stands for: what is in it, and what its name
stands for once that has changed.  `opening` tells how a table comes about on this way, and `last`
whether the way ends there. -/
def pass? (opening : Opening) (last : Bool) : Option Item → Option (Items × (Items → Item))
  | none => some ([], .table opening)
  | some (.table o ms) =>
    if opening = .dotted then if o = .header then none else some (ms, .table .dotted)
    else some (ms, .table o)
  | some (.tables before ms) =>
    if opening = .dotted ∧ last then none else some (ms, .tables before)
  | some (.leaf _) => none

/-- Changes the table at the end of a path below a table. -/
def change? (opening : Opening) (f : Items → Option Items) : List String → Items → Option Items
  | [], ms => f ms
  | name :: path, ms => do
    let (below, wrap) ← pass? opening path.isEmpty (Keyed.lookup name ms)
    return Keyed.insert name (wrap (← change? opening f path below)) ms

/-- Changes what a name at the end of a path stands for. -/
def assign? (opening : Opening) (f : Option Item → Option Item) (path : List String)
    (ms : Items) : Option Items := do
  let name ← path.getLast?
  change? opening (fun ms => (f (Keyed.lookup name ms)).map (Keyed.insert name · ms)) path.dropLast ms

/-- A table that is opened by its header. -/
def opened? : Option Item → Option Item
  | none => some (.table .header [])
  | some (.table .implied ms) => some (.table .header ms)
  | some _ => none

/-- A list of tables with a new table at its end. -/
def appended? : Option Item → Option Item
  | none => some (.tables [] [])
  | some (.tables before last) => some (.tables (before ++ [.table (settingAll last)]) [])
  | some _ => none

/-- A name that is set for the first time. -/
def fresh? (s : Setting) : Option Item → Option Item
  | none => some (.leaf s)
  | some _ => none

/-- Follows statements, given the path of the table that was opened last. -/
def follow? : List String → Items → List Statement → Option Items
  | _, ms, [] => some ms
  | _, ms, .opens path :: rest => do follow? path (← assign? .implied opened? path ms) rest
  | _, ms, .appends path :: rest => do follow? path (← assign? .implied appended? path ms) rest
  | last, ms, .sets path s :: rest => do
    follow? last (← change? .implied (assign? .dotted (fresh? s) path) last ms) rest

/-- The table of a document. -/
def collect? (statements : List Statement) : Option Layer :=
  (follow? [] [] statements).map settingAll

end Sieve.Toml
