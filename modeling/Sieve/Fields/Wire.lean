import Sieve.Fields
import Sieve.Filter.Wire

/-!
# Configured fields as JSON

A field is an object with the members `field`, `label` and `component`, and those of `operations`,
`options`, `defaultOp` and `meta` that it has; an option has `label` and `value`; a configuration
has `fields` and, if there is one, the table `defaultOperations`.
-/

namespace Sieve

open Decode

/-- An option of which some members have been read. -/
structure OptionParts where
  label : Option String := none
  value : Option Json := none

/-- The fields of an option. -/
def OptionParts.fields : List (RecordField OptionParts) :=
  [⟨"label", (·.label.isSome), fun _ s a => do return { a with label := ← readString s }⟩,
   ⟨"value", (·.value.isSome), fun o s a => do return { a with value := ← readJson o s }⟩]

/-- Decodes an option. -/
def FieldOption.read : Decoder FieldOption :=
  readRecord OptionParts.fields {} fun missing a => do
    let label ← required missing "label" a.label
    let value ← required missing "value" a.value
    return ⟨label, value⟩

/-- A field of which some members have been read. -/
structure FieldParts where
  field : Option String := none
  label : Option String := none
  component : Option String := none
  operators : Option (Option (List String)) := none
  options : Option (Option (List FieldOption)) := none
  defaultOperator : Option (Option String) := none
  extra : Option (Option (List (String × Json))) := none

/-- Decodes a list of names. -/
def readNames : Decoder (List String) := readList fun _ => readString

/-- The fields of a configured field. -/
def FieldParts.fields : List (RecordField FieldParts) :=
  [⟨"field", (·.field.isSome), fun _ s a => do return { a with field := ← readString s }⟩,
   ⟨"label", (·.label.isSome), fun _ s a => do return { a with label := ← readString s }⟩,
   ⟨"component", (·.component.isSome), fun _ s a => do return { a with component := ← readString s }⟩,
   ⟨"operations", (·.operators.isSome),
     fun o s a => do return { a with operators := some (← readOption (readNames o) s) }⟩,
   ⟨"options", (·.options.isSome),
     fun o s a => do return { a with options := some (← readOption (readList FieldOption.read o) s) }⟩,
   ⟨"defaultOp", (·.defaultOperator.isSome),
     fun _ s a => do return { a with defaultOperator := some (← readOption readString s) }⟩,
   ⟨"meta", (·.extra.isSome), fun o s a => do return { a with extra := some (← readOption (readObject o) s) }⟩]

/-- Decodes a configured field. -/
def FieldConfig.read : Decoder FieldConfig :=
  readRecord FieldParts.fields {} fun missing a => do
    let field ← required missing "field" a.field
    let label ← required missing "label" a.label
    let component ← required missing "component" a.component
    return ⟨field, label, component, a.operators.getD none, a.options.getD none,
      a.defaultOperator.getD none, a.extra.getD none⟩

/-- A configuration of which some members have been read. -/
structure ConfigParts where
  fields : Option (List FieldConfig) := none
  operators : Option (Option (List (String × List String))) := none

/-- Decodes a configuration. -/
def FilterConfig.read : Decoder FilterConfig :=
  readRecord (α := ConfigParts)
    [⟨"fields", (·.fields.isSome),
       fun o s a => do return { a with fields := ← readList FieldConfig.read o s }⟩,
     ⟨"defaultOperations", (·.operators.isSome),
       fun o s a => do return { a with operators := some (← readOption (readMap readNames o) s) }⟩]
    {} fun _ a => .ok ⟨a.fields.getD [], a.operators.getD none⟩

/-- A member that is left out if there is nothing in it. -/
def memberIfAny {α : Type} (name : String) (encode : α → Json) : Option α → List (String × Json)
  | some a => [(name, encode a)]
  | none => []

/-- An option in JSON. -/
def FieldOption.encode (o : FieldOption) : Json := .obj [("label", .str o.label), ("value", o.value)]

/-- A configured field in JSON. -/
def FieldConfig.encode (f : FieldConfig) : Json :=
  .obj ([("field", .str f.field), ("label", .str f.label), ("component", .str f.component)] ++
    memberIfAny "operations" Json.strings f.operators ++
    memberIfAny "options" (fun os => .arr (os.map FieldOption.encode)) f.options ++
    memberIfAny "defaultOp" .str f.defaultOperator ++ memberIfAny "meta" .obj f.extra)

/-- A configuration in JSON. -/
def FilterConfig.encode (c : FilterConfig) : Json :=
  .obj (("fields", .arr (c.fields.map FieldConfig.encode)) ::
    memberIfAny "defaultOperations"
      (fun table => .obj (table.map fun (k, ops) => (k, Json.strings ops))) c.operators)

end Sieve
