import Lineage.Catalog.Basic
import Lineage.Catalog.Local
import Lineage.Catalog.Snapshots
import Lineage.Dataset.Basic
import Lineage.Dataset.Loading
import Lineage.Dataset.Views
import Lineage.Decimal.Binary64
import Lineage.Decimal.Brief
import Lineage.Decimal.Layout
import Lineage.Decimal.Shortest
import Lineage.Decimal.Spelled
import Lineage.Dialogue
import Lineage.Digest
import Lineage.Evaluation
import Lineage.Failure
import Lineage.Files.Csv
import Lineage.Files.Encoding
import Lineage.Files.Format
import Lineage.Files.Glob
import Lineage.Files.Path
import Lineage.Files.Records
import Lineage.Files.Scan
import Lineage.Files.Tree
import Lineage.Inference
import Lineage.Json.Basic
import Lineage.Json.Decoder
import Lineage.Json.Document
import Lineage.Json.Error
import Lineage.Json.Printer
import Lineage.Json.Scalar
import Lineage.Md5
import Lineage.Observation
import Lineage.Proofs.Catalog.History
import Lineage.Proofs.Catalog.SnapshotDirectories
import Lineage.Proofs.Catalog.SnapshotFiles
import Lineage.Proofs.Catalog.SnapshotHash
import Lineage.Proofs.Catalog.SnapshotNames
import Lineage.Proofs.Catalog.Visible
import Lineage.Proofs.Dataset.Courses
import Lineage.Proofs.Dataset.DescriptorParts
import Lineage.Proofs.Dataset.DescriptorText
import Lineage.Proofs.Dataset.DigestOnce
import Lineage.Proofs.Dataset.LoadingOrder
import Lineage.Proofs.Dataset.LogLines
import Lineage.Proofs.Dataset.Making
import Lineage.Proofs.Dataset.OwnQuestions
import Lineage.Proofs.Dataset.Provenance
import Lineage.Proofs.Dataset.SchemaOnce
import Lineage.Proofs.Dataset.Splitting
import Lineage.Proofs.Dataset.Turns
import Lineage.Proofs.Dataset.Watching
import Lineage.Proofs.Decimal.Digits
import Lineage.Proofs.Decimal.Rounding
import Lineage.Proofs.Decimal.Scaling
import Lineage.Proofs.Decimal.Shortest
import Lineage.Proofs.Dialogue.Course
import Lineage.Proofs.Digest.Blocks
import Lineage.Proofs.Digest.Pieces
import Lineage.Proofs.EngineFaults
import Lineage.Proofs.Entries
import Lineage.Proofs.Evaluation.Contexts
import Lineage.Proofs.Evaluation.Examples
import Lineage.Proofs.Evaluation.Prompts
import Lineage.Proofs.Files.Below
import Lineage.Proofs.Files.Changes
import Lineage.Proofs.Files.Extensions
import Lineage.Proofs.Files.Shape
import Lineage.Proofs.Json.Accepting
import Lineage.Proofs.Json.Doubles
import Lineage.Proofs.Json.Grammar
import Lineage.Proofs.Json.Passing
import Lineage.Proofs.Json.PlainNumbers
import Lineage.Proofs.Json.Printed
import Lineage.Proofs.Json.Reading
import Lineage.Proofs.Json.Scalars
import Lineage.Proofs.Json.Skipping
import Lineage.Proofs.Json.Tagging
import Lineage.Proofs.Json.Written
import Lineage.Proofs.Schema.Format
import Lineage.Proofs.Schema.Inference
import Lineage.Proofs.Session.Answering
import Lineage.Proofs.Session.DefaultNames
import Lineage.Proofs.Session.Independence
import Lineage.Proofs.Session.LabelColumn
import Lineage.Proofs.Session.LazyLoading
import Lineage.Proofs.Session.PinnedVersion
import Lineage.Proofs.Session.QueriedTables
import Lineage.Proofs.Session.RowsAndCounts
import Lineage.Proofs.Session.Sight
import Lineage.Proofs.Session.Standing
import Lineage.Proofs.Session.Upkeep
import Lineage.Proofs.Source.Display
import Lineage.Proofs.Source.Format
import Lineage.Proofs.Source.Kinds
import Lineage.Proofs.Source.ReadBack
import Lineage.Proofs.Sql.WholeTable
import Lineage.Proofs.Success
import Lineage.Proofs.Table.Columns
import Lineage.Proofs.Table.DataHash
import Lineage.Proofs.Table.DtypeText
import Lineage.Proofs.Table.FurtherSteps
import Lineage.Proofs.Table.PlanHash
import Lineage.Proofs.Table.PlanText
import Lineage.Proofs.Table.RowCodes
import Lineage.Proofs.Table.Whole
import Lineage.Proofs.Text.Bytes
import Lineage.Schema
import Lineage.Session.State
import Lineage.Session.Step
import Lineage.Source
import Lineage.Sql.Meaning
import Lineage.Sql.Statement
import Lineage.Sql.Token
import Lineage.Table.Basic
import Lineage.Table.Cell
import Lineage.Table.Compute
import Lineage.Table.Demand
import Lineage.Table.Description
import Lineage.Table.Dtype
import Lineage.Table.Expr
import Lineage.Table.Plan
import Lineage.Table.Step
import Lineage.Table.Typing
import Lineage.Text.Hex
import Lineage.Text.Printable
import Lineage.Text.Quoted
