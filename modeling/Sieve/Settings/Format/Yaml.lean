import Sieve.Settings.Format.Yaml.Node
import Sieve.Settings.Format.Yaml.Text

/-!
# YAML

A reader of settings files in YAML.

* `node?`: a node within a line, where lists stand in brackets and mappings in braces, which may go
  over lines;
* `block?`: a node in lines of its own.  The items of a list and the members of a mapping begin at one
  column, and what belongs to them behind it; a list may stand at the column of the mapping it belongs
  to;
* `Yaml.read?`: a text with one document, which has to be a mapping, or with none.
-/

namespace Sieve.Yaml

/-! ### Nodes within a line -/

/-- A sign behind a node in a list or a mapping within a line. -/
def isFlowEnd (c : Char) : Bool := c = ',' || c = ']' || c = '\x7d'

/-- The name of a node, or a tag, and what follows. -/
def label (cs : List Char) : List Char × List Char :=
  cs.span fun c => !isSpace c && !isFlowSign c

mutual

/-- A node within a line, and what follows.  A text without quotes may go on in lines that begin at a
column or behind it. -/
def node? : Nat → Bool → Nat → List Char → Option (Node × List Char)
  | 0, _, _, _ => none
  | fuel + 1, flow, least, cs =>
    match cs with
    | '[' :: cs => (items? fuel cs).map fun (items, rest) => (.list items, rest)
    | '\x7b' :: cs => (members? fuel cs).map fun (ms, rest) => (.table ms, rest)
    | '"' :: _ => (string? cs).map fun (text, rest) => (.text text, rest)
    | '\x27' :: _ => (string? cs).map fun (text, rest) => (.text text, rest)
    | '*' :: cs =>
      let (name, rest) := label cs
      if name.isEmpty then none else some (.alias (String.ofList name), rest)
    | '&' :: cs => do
      let (name, rest) := label cs
      let (node, rest) ← inner? fuel flow least rest
      if name.isEmpty then none else return (.named (String.ofList name) node, rest)
    | '!' :: cs => do
      let (tag, rest) := label cs
      let (node, rest) ← inner? fuel flow least rest
      return (node.tagged (String.ofList tag), rest)
    | cs =>
      if startsWord flow cs then
        let (words, rest) := plain (cs.length + 1) flow least cs
        some (.word none (fold [] 0 (words.map fun c => (c, false))), rest)
      else none

/-- A node after its name or its tag, which need not be written. -/
def inner? : Nat → Bool → Nat → List Char → Option (Node × List Char)
  | 0, _, _, _ => none
  | fuel + 1, flow, least, cs =>
    let next := if flow then skip false cs else cs.dropWhile isBlank
    if ¬ isGap cs ∧ ¬ flow then none
    else if next.isEmpty ∨ next.head? = some '\n' ∨ flow ∧ next.head?.any isFlowEnd then
      some (.missing, cs)
    else node? fuel flow least next

/-- The items of a list in brackets up to its end, and what follows.  One member of a mapping may be an
item. -/
def items? : Nat → List Char → Option (List Node × List Char)
  | 0, _ => none
  | fuel + 1, cs =>
    match skip false cs with
    | ']' :: rest => some ([], rest)
    | cs => do
      let (node, value, rest) ← member? fuel cs
      let item := (value.map fun value => .table [(node, value)]).getD node
      match rest with
      | ',' :: rest =>
        let (items, rest) ← items? fuel rest
        return (item :: items, rest)
      | ']' :: rest => return ([item], rest)
      | _ => none

/-- The members of a mapping in braces up to its end, and what follows. -/
def members? : Nat → List Char → Option (List (Node × Node) × List Char)
  | 0, _ => none
  | fuel + 1, cs =>
    match skip false cs with
    | '\x7d' :: rest => some ([], rest)
    | cs => do
      let (node, value, rest) ← member? fuel cs
      let member := (node, value.getD .missing)
      match rest with
      | ',' :: rest =>
        let (ms, rest) ← members? fuel rest
        return (member :: ms, rest)
      | '\x7d' :: rest => return ([member], rest)
      | _ => none

/-- A node with its value, if it has one, and the sign that follows both. -/
def member? : Nat → List Char → Option (Node × Option Node × List Char)
  | 0, _ => none
  | fuel + 1, cs => do
    let (node, rest) ← node? fuel true 0 cs
    match skip false rest with
    | ':' :: rest =>
      let rest := skip false rest
      if rest.head?.any isFlowEnd then return (node, some .missing, rest)
      else
        let (value, rest) ← node? fuel true 0 rest
        return (node, some value, skip false rest)
    | rest => return (node, none, rest)

end

/-! ### Nodes in lines of their own -/

/-- Whether a sign stands next, with a gap behind it. -/
def isSigned (sign : Char) (cs : List Char) : Bool := cs.head? = some sign && isGap (cs.drop 1)

/-- The name of a member that begins in a line, and what follows its colon. -/
def key? (cs : List Char) : Option (Node × List Char) := do
  let line := cs.takeWhile (· ≠ '\n')
  let (key, rest) ← node? (2 * line.length + 2) false (line.length + 1) line
  match rest.dropWhile isBlank with
  | ':' :: after => if isGap after then some (key, cs.drop (line.length - after.length)) else none
  | _ => none

mutual

/-- A node in lines of its own, and the next thing. -/
def block? : Nat → Nat → Spot → Option (Node × Spot)
  | 0, _, _ => none
  | fuel + 1, least, s =>
    if isSigned '-' s.rest then
      (blockItems? fuel s.column s).map fun (items, s) => (.list items, s)
    else if isSigned '?' s.rest ∨ (key? s.rest).isSome then
      (blockMembers? fuel s.column s).map fun (ms, s) => (.table ms, s)
    else line? fuel least false s.rest

/-- A node that begins within a line, and the next thing. -/
def line? : Nat → Nat → Bool → List Char → Option (Node × Spot)
  | 0, _, _, _ => none
  | fuel + 1, least, beside, cs =>
    match cs with
    | '|' :: cs => (textBlock? false least cs).map fun (text, s) => (.text text, s)
    | '>' :: cs => (textBlock? true least cs).map fun (text, s) => (.text text, s)
    | '&' :: cs => do
      let (name, rest) := label cs
      let (node, s) ← value? fuel least beside rest
      if name.isEmpty then none else return (.named (String.ofList name) node, s)
    | '!' :: cs => do
      let (tag, rest) := label cs
      let (node, s) ← value? fuel least beside rest
      return (node.tagged (String.ofList tag), s)
    | cs => do
      let (node, rest) ← node? (2 * cs.length + 2) false least cs
      return (node, ← after? rest)

/-- A node after its key, its name or its tag, in the same line or in lines of its own, and the next
thing.  Whether a list may stand at the column before is told. -/
def value? : Nat → Nat → Bool → List Char → Option (Node × Spot)
  | 0, _, _, _ => none
  | fuel + 1, least, beside, cs =>
    match after? cs with
    | some s =>
      if s.rest.isEmpty then some (.missing, s)
      else if least ≤ s.column then block? fuel least s
      else if beside ∧ s.column + 1 = least ∧ isSigned '-' s.rest then block? fuel least s
      else some (.missing, s)
    | none => if isGap cs then line? fuel least beside (cs.dropWhile isBlank) else none

/-- A node after a sign that stands at a column, and the next thing.  A list or a mapping may begin in the
same line. -/
def signed? : Nat → Nat → List Char → Option (Node × Spot)
  | 0, _, _ => none
  | fuel + 1, column, cs =>
    if (endLine? cs).isSome then value? fuel (column + 1) false cs
    else
      let blanks := (cs.takeWhile isBlank).length
      block? fuel (column + 1) ⟨column + 1 + blanks, cs.drop blanks⟩

/-- The items of a list at a column, and the next thing. -/
def blockItems? : Nat → Nat → Spot → Option (List Node × Spot)
  | 0, _, _ => none
  | fuel + 1, column, s =>
    if s.rest.isEmpty ∨ s.column < column ∨ s.column = column ∧ ¬ isSigned '-' s.rest then
      some ([], s)
    else if column < s.column then none
    else do
      let (node, s) ← signed? fuel column (s.rest.drop 1)
      let (nodes, s) ← blockItems? fuel column s
      return (node :: nodes, s)

/-- The members of a mapping at a column, and the next thing.  A name may stand after a question mark,
and its value after a colon below. -/
def blockMembers? : Nat → Nat → Spot → Option (List (Node × Node) × Spot)
  | 0, _, _ => none
  | fuel + 1, column, s =>
    if s.rest.isEmpty ∨ s.column < column then some ([], s)
    else if column < s.column then none
    else do
      let (key, node, s) ←
        if isSigned '?' s.rest then
          match ← signed? fuel column (s.rest.drop 1) with
          | (key, s) =>
            if s.column = column ∧ isSigned ':' s.rest then
              (signed? fuel column (s.rest.drop 1)).map (key, ·)
            else some (key, .missing, s)
        else
          match ← key? s.rest with
          | (key, rest) => (value? fuel (column + 1) true rest).map (key, ·)
      let (ms, s) ← blockMembers? fuel column s
      return ((key, node) :: ms, s)

end

/-! ### Documents -/

/-- A mark between documents in a line. -/
def isMark (sign : Char) (line : List Char) : Bool :=
  (List.replicate 3 sign).isPrefixOf line && isGap (line.drop 3)

/-- A text with the ends of lines in one form. -/
def normalize : List Char → List Char
  | '\r' :: '\n' :: cs => '\n' :: normalize cs
  | '\r' :: cs => '\n' :: normalize cs
  | c :: cs => c :: normalize cs
  | [] => []

/-- The node of a document, and the next thing. -/
def document? (fuel : Nat) (s : Spot) : Option (Node × Spot) :=
  if s.column = 0 ∧ isMark '-' s.rest then value? fuel 0 false (s.rest.drop 3) else block? fuel 0 s

/-- Reads a text.  Directives, which may stand before the mark of a document, do not matter.  Every call
consumes a character or is followed by one that does. -/
def read? (text : String) : Option Layer := do
  let (lines, others) := (splitLines (normalize text.toList)).span fun line => !isMark '.' line
  let (directives, lines) := lines.span fun line => line.head? = some '%'
  let s := toContent (some 0) (joinLines lines)
  if ¬ directives.isEmpty ∧ ¬ isMark '-' s.rest then none
  else if ¬ (toContent (some 0) (joinLines (others.drop 1))).rest.isEmpty then none
  else if s.rest.isEmpty then some []
  else
    match ← document? (4 * text.length + 4) s with
    | (node, ⟨_, []⟩) =>
      match ← node.setting? [] with
      | (.table ms, _) => return ms
      | _ => none
    | _ => none

end Sieve.Yaml
