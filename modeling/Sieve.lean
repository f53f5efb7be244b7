import Sieve.Binary64
import Sieve.Binary64.Extended
import Sieve.Cache
import Sieve.Calendar
import Sieve.CommandLine
import Sieve.Decimal
import Sieve.Decode
import Sieve.Fields
import Sieve.Fields.Wire
import Sieve.Filter.Condition
import Sieve.Filter.Draft
import Sieve.Filter.Evaluation
import Sieve.Filter.Operator
import Sieve.Filter.Stock
import Sieve.Filter.Tree
import Sieve.Filter.Walk
import Sieve.Filter.Wire
import Sieve.Identifier
import Sieve.Json.Basic
import Sieve.Json.Number
import Sieve.Json.Path
import Sieve.Json.Printer
import Sieve.Json.Source
import Sieve.Keyed
import Sieve.Main
import Sieve.Metrics
import Sieve.Pipeline.Basic
import Sieve.Pipeline.Host
import Sieve.Pipeline.Layers
import Sieve.Pipeline.Plan
import Sieve.Pipeline.Script
import Sieve.Proofs.Cache.Entries
import Sieve.Proofs.Cache.Ledger
import Sieve.Proofs.Cache.Recency
import Sieve.Proofs.Fields.Initial
import Sieve.Proofs.Fields.Survival
import Sieve.Proofs.Fields.Validation
import Sieve.Proofs.Filter.Denotation
import Sieve.Proofs.Filter.Monotone
import Sieve.Proofs.Filter.Observation
import Sieve.Proofs.Json.Decoded
import Sieve.Proofs.Json.Equality
import Sieve.Proofs.Json.Nesting
import Sieve.Proofs.Json.Numeral
import Sieve.Proofs.Json.Ordered
import Sieve.Proofs.Json.Printed
import Sieve.Proofs.Json.Quoted
import Sieve.Proofs.Json.Scanned
import Sieve.Proofs.Metrics.Tally
import Sieve.Proofs.Pipeline.Accounting
import Sieve.Proofs.Pipeline.Composition
import Sieve.Proofs.Pipeline.Dispatch
import Sieve.Proofs.Pipeline.Isolation
import Sieve.Proofs.Pipeline.Persistence
import Sieve.Proofs.Pipeline.Soundness
import Sieve.Proofs.Pipeline.Transparency
import Sieve.Proofs.Store.Commutation
import Sieve.Proofs.Store.Identity
import Sieve.Proofs.Store.Insertion
import Sieve.Proofs.Store.Publication
import Sieve.Proofs.Store.ResultSet
import Sieve.Proofs.Store.Step
import Sieve.Proofs.Store.Version
import Sieve.Proofs.Tree.CacheKey
import Sieve.Proofs.Tree.Edit
import Sieve.Proofs.Tree.Equality
import Sieve.Proofs.Tree.FirstMatch
import Sieve.Proofs.Tree.Graft
import Sieve.Proofs.Tree.Ids
import Sieve.Proofs.Tree.Patch
import Sieve.Proofs.Tree.RoundTrip
import Sieve.Proofs.Tree.Sites
import Sieve.Proofs.Tree.Survival
import Sieve.Retry
import Sieve.Settings.Address
import Sieve.Settings.Basic
import Sieve.Settings.File
import Sieve.Settings.Format.Ini
import Sieve.Settings.Format.Json5
import Sieve.Settings.Format.Ron
import Sieve.Settings.Format.Yaml
import Sieve.Settings.Format.Yaml.Node
import Sieve.Settings.Format.Yaml.Text
import Sieve.Settings.Layer
import Sieve.Settings.Load
import Sieve.Settings.Numeral
import Sieve.Settings.Toml
import Sieve.Settings.Toml.Scalar
import Sieve.Settings.Toml.Table
import Sieve.Settings.Toml.Text
import Sieve.Store
import Sieve.Store.Command
import Sieve.Text.CaseTable
import Sieve.Text.Casing
import Sieve.Proofs.Tree.Outline
import Sieve.Proofs.Store.Removal
import Sieve.Proofs.Store.Update
import Sieve.Proofs.Store.Undo
import Sieve.Proofs.Store.Writes
import Sieve.Proofs.Binary64.Rounding
import Sieve.Proofs.Filter.Comparison
import Sieve.Proofs.Filter.Integers
import Sieve.Proofs.Filter.Congruence
import Sieve.Proofs.Calendar.Alphabet
import Sieve.Proofs.Filter.Transitivity
import Sieve.Proofs.Text.Parts
import Sieve.Proofs.Filter.Containment
import Sieve.Proofs.Json.Lookup
import Sieve.Proofs.Calendar.Days
import Sieve.Proofs.Calendar.Canonical
import Sieve.Proofs.Filter.Chronology
import Sieve.Proofs.Filter.Duality
import Sieve.Proofs.Binary64.Powers
import Sieve.Proofs.Retry.Backoff
import Sieve.Proofs.Pipeline.Onion
import Sieve.Proofs.Json.Members
import Sieve.Proofs.Tree.RuleForms
import Sieve.Proofs.Tree.NodeForms
import Sieve.Proofs.Tree.TextForms
import Sieve.Proofs.Tree.SpareMembers
import Sieve.Proofs.Tree.Addressing
import Sieve.Proofs.Fields.Exactness
import Sieve.Proofs.Settings.Overlay
import Sieve.Proofs.Tree.Queries
import Sieve.Proofs.Settings.Leaves
import Sieve.Proofs.Settings.Layering
import Sieve.Proofs.Settings.Variables
