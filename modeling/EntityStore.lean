import EntityStore.Binary64.Basic
import EntityStore.Binary64.Decimal
import EntityStore.Binary64.Wide
import EntityStore.Config.Configuration
import EntityStore.Config.Database
import EntityStore.Config.DotEnv
import EntityStore.Config.Environment
import EntityStore.Config.Error
import EntityStore.Config.Setting
import EntityStore.Config.Sources
import EntityStore.Json.Basic
import EntityStore.Json.FloatReader
import EntityStore.Json.Printer
import EntityStore.Json.Reader
import EntityStore.Json.Source
import EntityStore.Query.Error
import EntityStore.Query.Filter
import EntityStore.Query.Operand
import EntityStore.Query.Path
import EntityStore.Query.Plan
import EntityStore.Query.Statement
import EntityStore.Query.Vocabulary
import EntityStore.Record.Basic
import EntityStore.Schema.Basic
import EntityStore.Schema.Check
import EntityStore.Schema.Compile
import EntityStore.Schema.Dialect
import EntityStore.Schema.Error
import EntityStore.Schema.Location
import EntityStore.Schema.Presence
import EntityStore.Schema.Reference
import EntityStore.Schema.Regex
import EntityStore.Schema.RegexReader
import EntityStore.Schema.Validate
import EntityStore.Schema.Validator
import EntityStore.Schema.WellFormed
import EntityStore.Sql.Document
import EntityStore.Sql.Eval
import EntityStore.Sql.Expr
import EntityStore.Sql.Like
import EntityStore.Sql.Real
import EntityStore.Sql.Value
import EntityStore.Store.Assignment
import EntityStore.Store.Error
import EntityStore.Store.Row
import EntityStore.Store.Search
import EntityStore.Store.Service
import EntityStore.Store.Session
import EntityStore.Store.Table
import EntityStore.Text.Blank
import EntityStore.Text.Digits
import EntityStore.Text.Numeral
import EntityStore.Text.Split
import EntityStore.Text.Width
import EntityStore.Time.Calendar
import EntityStore.Time.Duration
import EntityStore.Time.Instant
import EntityStore.Time.Reader
import EntityStore.Toml.Document
import EntityStore.Toml.Number
import EntityStore.Toml.Table
import EntityStore.Toml.Text
import EntityStore.Wire.Catalog
import EntityStore.Wire.Fields
import EntityStore.Wire.Records
import EntityStore.Wire.Settings
import EntityStore.Wire.Text
import EntityStore.Proofs.Sql.Document
import EntityStore.Proofs.Sql.Substitution
import EntityStore.Proofs.Query.Placeholders
import EntityStore.Proofs.Query.Shape
import EntityStore.Proofs.Binary64.Decimal
import EntityStore.Proofs.Json.Merge
import EntityStore.Proofs.Json.Canonical
import EntityStore.Proofs.Json.Text
import EntityStore.Proofs.Json.QuickReader
import EntityStore.Proofs.Query.Meaning
import EntityStore.Proofs.Store.Listing
import EntityStore.Proofs.Store.Resubmission
import EntityStore.Proofs.Store.Equality
import EntityStore.Proofs.Store.Comparison
import EntityStore.Proofs.Store.Containment
import EntityStore.Proofs.Store.Recall
import EntityStore.Proofs.Store.Consistency
import EntityStore.Proofs.Store.Isolation
import EntityStore.Proofs.Store.Validation
import EntityStore.Proofs.Schema.Missing
import EntityStore.Proofs.Schema.Quiet
import EntityStore.Proofs.Store.Blueprints
import EntityStore.Proofs.Store.Refusal
import EntityStore.Proofs.Store.Reply
import EntityStore.Proofs.Store.Faultless
import EntityStore.Proofs.Store.Lookup
import EntityStore.Proofs.Time.Shown
import EntityStore.Proofs.Wire.Fields
import EntityStore.Proofs.Wire.Kind
import EntityStore.Proofs.Wire.RoundTrip
import EntityStore.Proofs.Schema.Meaning
import EntityStore.Proofs.Wire.Forms
import EntityStore.Proofs.Wire.Catalog
import EntityStore.Proofs.Wire.Readable
import EntityStore.Proofs.Query.Paths
import EntityStore.Proofs.Query.Literals
import EntityStore.Proofs.Query.Acceptance
import EntityStore.Proofs.Store.Outcome
import EntityStore.Proofs.Config.Layers
import EntityStore.Proofs.Config.Tables
import EntityStore.Proofs.Config.Precedence
import EntityStore.Proofs.Schema.FieldPath
import EntityStore.Proofs.Schema.Stripped
import EntityStore.Proofs.Wire.Filters
import EntityStore.Proofs.Store.Direction
import EntityStore.Proofs.Store.Chronology
import EntityStore.Proofs.Store.Frame
import EntityStore.Proofs.Store.Patch
import EntityStore.Proofs.Query.Operands
import EntityStore.Proofs.Config.Backoff
import EntityStore.Proofs.Store.Window
