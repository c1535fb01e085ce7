import TableGate.Batch.Operation
import TableGate.Batch.Outcome
import TableGate.Batch.Permits
import TableGate.Batch.Run
import TableGate.Batch.Store
import TableGate.Bytes.Base64
import TableGate.Bytes.Basic
import TableGate.Bytes.Hex
import TableGate.Cipher.ChaCha20
import TableGate.Cipher.Poly1305
import TableGate.Cipher.Sha256
import TableGate.Cipher.Suite
import TableGate.Connection.Registry
import TableGate.Connection.Settings
import TableGate.Connection.Url
import TableGate.Fault
import TableGate.Json.Embedded
import TableGate.Json.Reader
import TableGate.Json.Record
import TableGate.Json.Skim
import TableGate.Json.Text
import TableGate.Json.Value
import TableGate.NameMap
import TableGate.Number.Binary64
import TableGate.Number.Literal
import TableGate.PerTable
import TableGate.Proofs.Bytes.Base64
import TableGate.Proofs.Bytes.Parts
import TableGate.Proofs.Cipher.RoundTrip
import TableGate.Proofs.Failure
import TableGate.Proofs.Json.Value
import TableGate.Proofs.NameMap
import TableGate.Proofs.Query.BoundValues
import TableGate.Proofs.Query.Clauses
import TableGate.Proofs.Query.Comparisons
import TableGate.Proofs.Query.Parameters
import TableGate.Proofs.Query.Predicate
import TableGate.Proofs.Query.RowTruth
import TableGate.Proofs.Query.Scopes
import TableGate.Proofs.Query.SelectText
import TableGate.Proofs.Query.SelectedColumns
import TableGate.Proofs.Query.Sites
import TableGate.Proofs.Query.SoftDelete
import TableGate.Proofs.Query.Truth
import TableGate.Proofs.Query.Understood
import TableGate.Proofs.Query.Writes
import TableGate.Proofs.Schema.ActionLists
import TableGate.Proofs.Schema.Actions
import TableGate.Proofs.Schema.Remembered
import TableGate.Proofs.Service.BaseTables
import TableGate.Proofs.Service.EncryptedWrites
import TableGate.Proofs.Service.SchemaPlans
import TableGate.Proofs.Service.Sending
import TableGate.Proofs.Service.SchemaRuns
import TableGate.Proofs.Service.Tables
import TableGate.Proofs.Sql.Column
import TableGate.Proofs.Sql.Expression
import TableGate.Proofs.Sql.Marks
import TableGate.Proofs.Sql.Path
import TableGate.Proofs.Sql.Reference
import TableGate.Proofs.Sql.Rendering
import TableGate.Proofs.Text.Ascii
import TableGate.Proofs.Text.Blank
import TableGate.Proofs.Text.Decimal
import TableGate.Proofs.Text.Pieces
import TableGate.Proofs.Vault.BaseTable
import TableGate.Proofs.Vault.Concealed
import TableGate.Proofs.Vault.Envelope
import TableGate.Proofs.Vault.Exposure
import TableGate.Proofs.Vault.KeyCalls
import TableGate.Proofs.Vault.KeyHistory
import TableGate.Proofs.Vault.KeyRing
import TableGate.Proofs.Vault.ReferencedTables
import TableGate.Proofs.Vault.RowRoundTrip
import TableGate.Proofs.Vault.Rows
import TableGate.Proofs.Vault.Search
import TableGate.Proofs.Vault.SearchTruth
import TableGate.Proofs.Vault.Searched
import TableGate.Query.Condition
import TableGate.Query.JsonPath
import TableGate.Query.Operator
import TableGate.Query.Predicate
import TableGate.Query.Select
import TableGate.Query.Spec
import TableGate.Query.SpecJson
import TableGate.Query.Write
import TableGate.Schema.Blueprint
import TableGate.Schema.Catalog
import TableGate.Schema.Effect
import TableGate.Schema.Plan
import TableGate.Schema.Statement
import TableGate.Service.Basic
import TableGate.Service.Call
import TableGate.Service.Request
import TableGate.Service.Session
import TableGate.Settings.Logging
import TableGate.Settings.Service
import TableGate.Settings.Variables
import TableGate.Sql.Column
import TableGate.Sql.Dialect
import TableGate.Sql.Literal
import TableGate.Sql.RawPolicy
import TableGate.Sql.Template
import TableGate.Text.Ascii
import TableGate.Text.Blank
import TableGate.Text.Decimal
import TableGate.Text.Pieces
import TableGate.Text.Quoted
import TableGate.Text.Unprintable
import TableGate.Vault.Codec
import TableGate.Vault.EncryptedColumn
import TableGate.Vault.Envelope
import TableGate.Vault.KeyRing
import TableGate.Vault.Search
import TableGate.Proofs.Query.WithoutData
import TableGate.Proofs.Query.SameText
import TableGate.Proofs.Sql.Plain
import TableGate.Proofs.Query.Regular
import TableGate.Proofs.Query.Vetted
import TableGate.Proofs.Query.SafeText
import TableGate.Proofs.Query.Quotes
import TableGate.Proofs.Sql.Formula
import TableGate.Proofs.Query.AtomTokens
import TableGate.Proofs.Query.ChainReading
import TableGate.Proofs.Query.WhereReading
import TableGate.Proofs.Query.JoinedRows
import TableGate.Proofs.Query.DeletionTests
import TableGate.Proofs.Query.SiftedJoins
import TableGate.Proofs.Query.DeletedRows
import TableGate.Proofs.Service.Plans
import TableGate.Proofs.Service.Faults
import TableGate.Proofs.Vault.WriteFilters
import TableGate.Proofs.Service.ChosenRows
import TableGate.Proofs.Connection.Registry
import TableGate.Proofs.Service.Connections
import TableGate.Proofs.Service.SideBySide
import TableGate.Proofs.Service.Isolation
import TableGate.Proofs.Text.Replace
import TableGate.Proofs.Connection.Resolution
import TableGate.Proofs.Batch.Slots
import TableGate.Proofs.Batch.StoreCalls
import TableGate.Proofs.Batch.Accounts
import TableGate.Proofs.Json.Settled
import TableGate.Proofs.Json.Carrier
import TableGate.Proofs.Json.Fields
import TableGate.Proofs.Query.WrittenQueries
import TableGate.Proofs.Schema.WrittenChanges
import TableGate.Proofs.Batch.WrittenOperations
import TableGate.Proofs.Batch.RunSlots
import TableGate.Proofs.Service.DirectCalls
import TableGate.Proofs.Schema.Drafts
import TableGate.Proofs.Schema.NewTables
import TableGate.Proofs.Sql.StringLiterals
import TableGate.Proofs.Schema.Defaults
import TableGate.Proofs.Query.JoinReading
import TableGate.Proofs.Sql.CommonText
import TableGate.Proofs.Query.PortableQueries
import TableGate.Proofs.Schema.Indexes
import TableGate.Proofs.Schema.AddedColumns
import TableGate.Proofs.Schema.CreatedTables
import TableGate.Proofs.Schema.IndexedDrops
import TableGate.Proofs.Schema.StoredTables
import TableGate.Proofs.Schema.Uniqueness
import TableGate.Proofs.Query.InsertedRows
import TableGate.Proofs.Service.Upserts
import TableGate.Proofs.Query.UnitedRows
import TableGate.Proofs.Sql.ExpressionGrammar
import TableGate.Proofs.Sql.ReferenceGrammar
import TableGate.Proofs.Sql.ArrayLiterals
import TableGate.Proofs.Query.JsonPath
import TableGate.Proofs.Vault.ColumnCalls
import TableGate.Proofs.Vault.Bindings
import TableGate.Proofs.Vault.ConfiguredKeys
import TableGate.Proofs.Number.Shortest
import TableGate.Proofs.Number.DecimalText
import TableGate.Proofs.Text.Quoted
import TableGate.Proofs.Json.Text
import TableGate.Proofs.Vault.HashInputs
import TableGate.Proofs.Vault.Spellings
import TableGate.Proofs.Connection.Redaction
import TableGate.Proofs.Service.SchemaOperations
import TableGate.Proofs.Schema.IndexNames
import TableGate.Proofs.Batch.CountedPermits
import TableGate.Proofs.Batch.Interleavings
import TableGate.Proofs.Batch.Completion
