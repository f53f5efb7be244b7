import Sieve.Settings.Layer

/-!
# Nodes of YAML

A document is a node: a scalar, a list or a mapping, or an alias for a node that was named before.

* `Node.setting?` is what a node says.  A word without quotes may be a number, a truth value or nothing;
  in quotes it is a text;
* names in a mapping are texts or integers, and all different;
* a tag in front of a word tells what it has to be, and a word that is not of that kind says nothing.
-/

namespace Sieve.Yaml

/-- A node as it is written. -/
inductive Node
  | word (tag : Option String) (cs : List Char)
  | text (cs : List Char)
  | list (items : List Node)
  | table (members : List (Node × Node))
  | named (name : String) (node : Node)
  | alias (name : String)

/-- A node that is not written. -/
def Node.missing : Node := word none []

/-- Puts a tag to a word; it does not matter to other nodes. -/
def Node.tagged (tag : String) : Node → Node
  | word none cs => word (some tag) cs
  | named name node => named name (node.tagged tag)
  | node => node

/-! ### Words -/

/-- An integer in another base, with or without a sign. -/
def based? (base : Nat) (cs : List Char) : Option Int :=
  let (negative, ds) := Numeral.unsign cs
  Numeral.ofDigits? base negative ds

/-- An integer. -/
def int? (cs : List Char) : Option Int :=
  match cs with
  | '0' :: 'x' :: ds => based? 16 ds
  | '0' :: 'o' :: ds => based? 8 ds
  | '+' :: ds => (Numeral.int? ds).or (Numeral.int? cs)
  | _ => Numeral.int? cs

/-- A real number; it has a digit. -/
def real? (cs : List Char) : Option Extended :=
  if cs.any Char.isDigit then Numeral.real? cs else none

/-- A word for infinity or for an undefined value. -/
def isUnbounded (cs : List Char) : Bool :=
  [".inf", ".Inf", ".INF"].contains (String.ofList (Numeral.unsign cs).2) ||
    [".nan", ".NaN", ".NAN"].contains (String.ofList cs)

/-- What a word says.  There are no settings for the words for infinity and for an undefined value. -/
def ofWord? (cs : List Char) : Option Setting :=
  let word := String.ofList cs
  if ["", "~", "null"].contains word then some .null
  else if ["true", "True", "TRUE"].contains word then some (.truth true)
  else if ["false", "False", "FALSE"].contains word then some (.truth false)
  else if isUnbounded cs then none
  else match int? cs with
    | some i => some (.int i)
    | none => some (((real? cs).map .real).getD (.text word))

/-- What a word with a tag says. -/
def ofTagged? (tag : String) (cs : List Char) : Option Setting :=
  match tag with
  | "!bool" => some (match String.ofList cs with
    | "true" => .truth true
    | "false" => .truth false
    | _ => .null)
  | "!int" => some (((Numeral.int? cs).map .int).getD .null)
  | "!float" => if isUnbounded cs then none else some (((real? cs).map .real).getD .null)
  | "!null" => some .null
  | _ => some (.text (String.ofList cs))

/-! ### Settings -/

/-- What nodes with names say. -/
abbrev Names := List (String × Setting)

/-- A setting as a name in a mapping. -/
def nameOf? : Setting → Option String
  | .text s => some s
  | .int i => some (toString i)
  | _ => none

mutual

/-- What a node says, given what the nodes with names before it say. -/
def Node.setting? : Node → Names → Option (Setting × Names)
  | .word none cs, names => (ofWord? cs).map fun s => (s, names)
  | .word (some tag) cs, names => (ofTagged? tag cs).map fun s => (s, names)
  | .text cs, names => some (.text (String.ofList cs), names)
  | .list items, names => (settings? items names).map fun (xs, names) => (.list xs, names)
  | .table members, names => (layer? members [] names).map fun (ms, names) => (.table ms, names)
  | .named name node, names => do
    let (s, names) ← node.setting? names
    return (s, (name, s) :: names)
  | .alias name, names => (names.lookup name).map fun s => (s, names)

/-- What nodes say one after another. -/
def settings? : List Node → Names → Option (List Setting × Names)
  | [], names => some ([], names)
  | node :: nodes, names => do
    let (s, names) ← node.setting? names
    let (ss, names) ← settings? nodes names
    return (s :: ss, names)

/-- What a mapping says, given the members before. -/
def layer? : List (Node × Node) → Layer → Names → Option (Layer × Names)
  | [], done, names => some (done, names)
  | (key, node) :: rest, done, names => do
    let (key, names) ← key.setting? names
    let name ← nameOf? key
    let (s, names) ← node.setting? names
    if (Keyed.lookup name done).isSome then none
    else layer? rest (Keyed.insert name s done) names

end

end Sieve.Yaml
