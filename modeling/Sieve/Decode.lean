import Sieve.Json.Source

/-!
# Decoding

A decoder turns a `Source` into a value of some type, or into the first defect that it meets.

* `DecodeError`: the causes of refusal, with their wording in `message?`;
* `Origin`: where a source comes from.  Text has room for a limited nesting; a value of its own has
  none of the defects of text; members set aside to be decoded later are `buffered`;
* `readString`, `readBool`, `readUnsigned`, `readJson`, `readList`, `readOption`: the decoders of
  plain values;
* `skip` and `setAside`: what becomes of members that are unknown or decoded later;
* `readRecord`: the decoder of a record from the list of its fields.  A record is an object with its
  members in any order, or an array with them in the order of the fields.
-/

namespace Sieve

/-- Why a source is refused. -/
inductive DecodeError
  | malformed
  | truncated
  | missingField (name : String)
  | duplicateField (name : String)
  | unknownVariant (found : String) (expected : List String)
  | invalidType
  | invalidValue
  | invalidLength
  deriving DecidableEq, Repr

/-- A defect of the text as an error. -/
def DecodeError.ofDefect : Defect → DecodeError
  | .malformed => malformed
  | .truncated => truncated

/-- A name in the quotes of messages. -/
def ticked (name : String) : String := "`" ++ name ++ "`"

/-- The choice between the given names. -/
def choice : List String → String
  | [a] => ticked a
  | [a, b] => ticked a ++ " or " ++ ticked b
  | names => "one of " ++ ", ".intercalate (names.map ticked)

/-- The wording of an error of shape; a defect of the text has none. -/
def DecodeError.message? : DecodeError → Option String
  | malformed => none
  | truncated => none
  | missingField n => some ("missing field " ++ ticked n)
  | duplicateField n => some ("duplicate field " ++ ticked n)
  | unknownVariant n ns => some ("unknown variant " ++ ticked n ++ ", expected " ++ choice ns)
  | invalidType => some "invalid type"
  | invalidValue => some "invalid value"
  | invalidLength => some "invalid length"

/-- Where a source comes from: text with room for so many more levels, a value, or a buffer. -/
inductive Origin
  | text (room : Nat)
  | value
  | buffered
  deriving DecidableEq, Repr

/-- Text may nest this many arrays and objects. -/
def maxDepth : Nat := 127

namespace Origin

/-- Enters an array or object. -/
def enter : Origin → Except DecodeError Origin
  | text 0 => .error .malformed
  | text (room + 1) => .ok (text room)
  | o => .ok o

/-- The error for items beyond the last field of a record. -/
def surplus : Origin → DecodeError
  | text _ => .malformed
  | _ => .invalidLength

end Origin

/-- The value that a decoder makes of a source. -/
abbrev Decoder (α : Type) := Origin → Source → Except DecodeError α

namespace Ending

/-- Refuses an array or object that does not end well. -/
def close : Ending → Except DecodeError Unit
  | closed => .ok ()
  | broken _ b => .error (.ofDefect b.read)

/-- The same for one who skips it. -/
def closeSkipped : Ending → Except DecodeError Unit
  | closed => .ok ()
  | broken _ b => .error (.ofDefect b.skip)

end Ending

namespace Decode

/-- The error for a source of another kind than expected. -/
def mismatch : Source → DecodeError
  | .broken b => .ofDefect b.read
  | .number none => .malformed
  | .string none => .malformed
  | _ => .invalidType

/-- A string. -/
def readString : Source → Except DecodeError String
  | .string (some s) => .ok s
  | s => .error (mismatch s)

/-- The name of a member. -/
def readName : Option String → Except DecodeError String
  | some s => .ok s
  | none => .error .malformed

/-- A truth value. -/
def readBool : Source → Except DecodeError Bool
  | .bool b => .ok b
  | s => .error (mismatch s)

/-- An integer from zero to below a bound. -/
def readUnsigned (bound : Nat) : Source → Except DecodeError Nat
  | .number (some (.integer i _)) =>
    if 0 ≤ i ∧ i < bound then .ok i.toNat else .error .invalidValue
  | s => .error (mismatch s)

/-- A value, or `none` for null. -/
def readOption {α : Type} (read : Source → Except DecodeError α) :
    Source → Except DecodeError (Option α)
  | .null => .ok none
  | s => (read s).map some

mutual

/-- Any value. -/
def readJson : Decoder Json
  | _, .null => .ok .null
  | _, .bool b => .ok (.bool b)
  | _, .number (some n) => .ok (.num n)
  | _, .string (some s) => .ok (.str s)
  | o, .array items ending => do
    let o ← o.enter
    let xs ← readItems o items
    ending.close
    return .arr xs
  | o, .object members ending => do
    let o ← o.enter
    let ms ← readMembers o members
    ending.close
    return .obj (Keyed.ofList ms)
  | _, s => .error (mismatch s)

/-- The items of an array. -/
def readItems (o : Origin) : List Source → Except DecodeError (List Json)
  | [] => .ok []
  | s :: ss => do
    let x ← readJson o s
    let xs ← readItems o ss
    return x :: xs

/-- The members of an object, in the order of the text. -/
def readMembers (o : Origin) :
    List (Option String × Source) → Except DecodeError (List (String × Json))
  | [] => .ok []
  | (name, s) :: ss => do
    let k ← readName name
    let x ← readJson o s
    let xs ← readMembers o ss
    return (k, x) :: xs

end

/-- An object, as its members. -/
def readObject : Decoder (List (String × Json))
  | o, .object members ending => do
    let o ← o.enter
    let ms ← readMembers o members
    ending.close
    return Keyed.ofList ms
  | _, s => .error (mismatch s)

/-- The items of an array, each by the same decoder. -/
def readEach {α : Type} (read : Source → Except DecodeError α) :
    List Source → Except DecodeError (List α)
  | [] => .ok []
  | s :: ss => do
    let x ← read s
    let xs ← readEach read ss
    return x :: xs

/-- An array. -/
def readList {α : Type} (read : Decoder α) : Decoder (List α)
  | o, .array items ending => do
    let o ← o.enter
    let xs ← readEach (read o) items
    ending.close
    return xs
  | _, s => .error (mismatch s)

/-- The values of an object with values of one kind, by name. -/
def readEachMember {α : Type} (read : Source → Except DecodeError α) :
    List (Option String × Source) → Except DecodeError (List (String × α))
  | [] => .ok []
  | (name, s) :: ss => do
    let k ← readName name
    let x ← read s
    let xs ← readEachMember read ss
    return (k, x) :: xs

/-- An object with values of one kind. -/
def readMap {α : Type} (read : Decoder α) : Decoder (List (String × α))
  | o, .object members ending => do
    let o ← o.enter
    let xs ← readEachMember (read o) members
    ending.close
    return Keyed.ofList xs
  | _, s => .error (mismatch s)

mutual

/-- Passes over a value, of which only the grammar is checked. -/
def skip : Source → Except DecodeError Unit
  | .broken b => .error (.ofDefect b.skip)
  | .array items ending => do
    skipItems items
    ending.closeSkipped
  | .object members ending => do
    skipMembers members
    ending.closeSkipped
  | _ => .ok ()

/-- Passes over items. -/
def skipItems : List Source → Except DecodeError Unit
  | [] => .ok ()
  | s :: ss => do
    skip s
    skipItems ss

/-- Passes over members. -/
def skipMembers : List (Option String × Source) → Except DecodeError Unit
  | [] => .ok ()
  | (_, s) :: ss => do
    skip s
    skipMembers ss

end

/-- Sets a value aside to be decoded later.  Text is read in full for that; other sources have no
defect to be found. -/
def setAside : Origin → Source → Except DecodeError Unit
  | .text room, s => (readJson (.text room) s).map fun _ => ()
  | _, _ => .ok ()

/-! ### Records -/

/-- A field of a record under construction: its name, whether it has been read, how it is read. -/
structure RecordField (α : Type) where
  name : String
  seen : α → Bool
  read : Origin → Source → α → Except DecodeError α

variable {α β : Type}

/-- Reads the fields of a record from the members of an object. -/
def readFields (fields : List (RecordField α)) (o : Origin) :
    List (Option String × Source) → α → Except DecodeError α
  | [], a => .ok a
  | (name, s) :: ss, a => do
    let k ← readName name
    match fields.find? (·.name = k) with
    | none =>
      skip s
      readFields fields o ss a
    | some f =>
      if f.seen a then .error (.duplicateField k)
      else
        let a ← f.read o s a
        readFields fields o ss a

/-- Reads the fields of a record from the items of an array, and says which items are left over,
or `none` if the fields were not used up. -/
def readElements (o : Origin) :
    List (RecordField α) → List Source → α → Except DecodeError (α × Option (List Source))
  | [], ss, a => .ok (a, some ss)
  | _ :: _, [], a => .ok (a, none)
  | f :: fs, s :: ss, a => do
    let a ← f.read o s a
    readElements o fs ss a

/-- The end of an array after the last field of a record. -/
def closeElements (o : Origin) : List Source → Ending → Except DecodeError Unit
  | _ :: _, _ => .error o.surplus
  | [], .broken true _ => .error .malformed
  | [], ending => ending.close

/-- The end of an array that was read as a record. -/
def closeRecord (o : Origin) (left : Option (List Source)) (ending : Ending) :
    Except DecodeError Unit :=
  match left with
  | some ss => closeElements o ss ending
  | none => ending.close

/-- A record, from its fields, its state before any is read, and what becomes of its state in the
end; the last is told which error a missing field is. -/
def readRecord (fields : List (RecordField α)) (start : α)
    (finish : (String → DecodeError) → α → Except DecodeError β) : Decoder β
  | o, .object members ending => do
    let o ← o.enter
    let a ← readFields fields o members start
    ending.close
    finish .missingField a
  | o, .array items ending => do
    let o ← o.enter
    let (a, left) ← readElements o fields items start
    closeRecord o left ending
    finish (fun _ => .invalidLength) a
  | _, s => .error (mismatch s)

/-- The value of a field that must be there. -/
def required (missing : String → DecodeError) (name : String) : Option α → Except DecodeError α
  | some a => .ok a
  | none => .error (missing name)

/-! ### Whole texts and values -/

/-- Decodes a text, after which only blanks may follow. -/
def ofText (read : Decoder α) (text : String) : Except DecodeError α := do
  let d := Source.ofText text
  let a ← read (.text maxDepth) d.value
  if d.trailing then .error .malformed else return a

/-- Decodes a value. -/
def ofJson (read : Decoder α) (j : Json) : Except DecodeError α := read .value (Source.ofJson j)

end Decode

end Sieve
