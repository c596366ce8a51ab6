import Cohort.Assoc
import Cohort.Calendar.Date
import Cohort.Calendar.Instant
import Cohort.Catalog
import Cohort.Command
import Cohort.Command.Help
import Cohort.Command.Invocation
import Cohort.Command.Level
import Cohort.Command.RuleFile
import Cohort.Condition
import Cohort.Condition.Input
import Cohort.Condition.Key
import Cohort.Cover
import Cohort.Decimal.Binary
import Cohort.Decimal.Reader
import Cohort.Decimal.Rough
import Cohort.Decimal.Shortest
import Cohort.Decimal.Written
import Cohort.Dispatch
import Cohort.Engine
import Cohort.Engine.Dataset
import Cohort.Engine.Evaluate
import Cohort.Engine.Json
import Cohort.Entry
import Cohort.Entry.Json
import Cohort.Event
import Cohort.Failure
import Cohort.Field
import Cohort.Job
import Cohort.JobState
import Cohort.Json.Basic
import Cohort.Json.Outline
import Cohort.Json.Parser
import Cohort.Json.Pretty
import Cohort.Json.Printer
import Cohort.Json.Shape
import Cohort.Lineage
import Cohort.Lineage.Countdown
import Cohort.Lineage.Order
import Cohort.Main
import Cohort.Manager
import Cohort.Materialize
import Cohort.Program
import Cohort.Proofs.Calendar.DateText
import Cohort.Proofs.Calendar.Times
import Cohort.Proofs.Catalog.Consistency
import Cohort.Proofs.Catalog.NameIndex
import Cohort.Proofs.Catalog.Records
import Cohort.Proofs.Catalog.Rows
import Cohort.Proofs.Catalog.Soundness
import Cohort.Proofs.Catalog.Storable
import Cohort.Proofs.Catalog.Versions
import Cohort.Proofs.Condition.FlatForm
import Cohort.Proofs.Condition.KeyMeaning
import Cohort.Proofs.Condition.KeySets
import Cohort.Proofs.Condition.Respelling
import Cohort.Proofs.Cover.Greedy
import Cohort.Proofs.Cover.Maximal
import Cohort.Proofs.Cover.Presentation
import Cohort.Proofs.Cover.Walks
import Cohort.Proofs.Decimal.Bits
import Cohort.Proofs.Decimal.Plain
import Cohort.Proofs.Decimal.Printing
import Cohort.Proofs.Decimal.Range
import Cohort.Proofs.Decimal.Rounding
import Cohort.Proofs.Engine.Combination
import Cohort.Proofs.Engine.Datasets
import Cohort.Proofs.Engine.Selection
import Cohort.Proofs.Json.Doubles
import Cohort.Proofs.Json.Numbers
import Cohort.Proofs.Json.Reading
import Cohort.Proofs.Lineage.Canonical
import Cohort.Proofs.Lineage.Collect
import Cohort.Proofs.Lineage.Denotation
import Cohort.Proofs.Lineage.Dependency
import Cohort.Proofs.Lineage.Graph
import Cohort.Proofs.Lineage.Order
import Cohort.Proofs.Manager.Commits
import Cohort.Proofs.Manager.Creations
import Cohort.Proofs.Manager.Deletions
import Cohort.Proofs.Manager.History
import Cohort.Proofs.Manager.Interleaving
import Cohort.Proofs.Manager.Jobs
import Cohort.Proofs.Manager.Mirror
import Cohort.Proofs.Manager.Patches
import Cohort.Proofs.Manager.Resubmission
import Cohort.Proofs.Manager.Rollback
import Cohort.Proofs.Manager.Staleness
import Cohort.Proofs.Manager.StoredPlans
import Cohort.Proofs.Program.Among
import Cohort.Proofs.Program.Failures
import Cohort.Proofs.Program.Interference
import Cohort.Proofs.Program.Protocol
import Cohort.Proofs.Program.Requests
import Cohort.Proofs.Program.Trail
import Cohort.Proofs.Program.Waiting
import Cohort.Proofs.Program.Yields
import Cohort.Proofs.Query.Compilation
import Cohort.Proofs.Query.EqualKeys
import Cohort.Proofs.Query.Isolation
import Cohort.Proofs.Query.Literals
import Cohort.Proofs.Query.Reading
import Cohort.Proofs.Query.Stored
import Cohort.Proofs.Reuse.Parts
import Cohort.Proofs.Reuse.RawConditions
import Cohort.Proofs.Run.Atomicity
import Cohort.Proofs.Run.Completeness
import Cohort.Proofs.Run.Conduct
import Cohort.Proofs.Run.Course
import Cohort.Proofs.Run.Custody
import Cohort.Proofs.Run.Depth
import Cohort.Proofs.Run.Events
import Cohort.Proofs.Run.Failures
import Cohort.Proofs.Run.Frame
import Cohort.Proofs.Run.Freshness
import Cohort.Proofs.Run.Mirror
import Cohort.Proofs.Run.OnDemand
import Cohort.Proofs.Run.Provenance
import Cohort.Proofs.Run.Reading
import Cohort.Proofs.Run.Refreshing
import Cohort.Proofs.Run.Waiting
import Cohort.Proofs.Scheduler.Accounts
import Cohort.Proofs.Scheduler.Attendance
import Cohort.Proofs.Scheduler.Board
import Cohort.Proofs.Scheduler.Deadlock
import Cohort.Proofs.Scheduler.Demand
import Cohort.Proofs.Scheduler.Finality
import Cohort.Proofs.Scheduler.ManualRuns
import Cohort.Proofs.Scheduler.Pass
import Cohort.Proofs.Scheduler.Pool
import Cohort.Proofs.Scheduler.Repeats
import Cohort.Proofs.Scheduler.Reports
import Cohort.Proofs.Scheduler.Residuals
import Cohort.Proofs.Scheduler.Retries
import Cohort.Proofs.Scheduler.Systems
import Cohort.Query
import Cohort.Query.Accept
import Cohort.Query.Compile
import Cohort.Query.Json
import Cohort.Rule
import Cohort.Rule.Json
import Cohort.RuleId
import Cohort.Schedule
import Cohort.Scheduler
import Cohort.Segment
import Cohort.Segment.Record
import Cohort.SetOperation
import Cohort.Settings
import Cohort.Settings.Lenient
import Cohort.Settings.Load
import Cohort.Settings.Tree
import Cohort.Settings.Variable
import Cohort.Sorting
import Cohort.State
import Cohort.System
import Cohort.Task
import Cohort.Text.Blank
import Cohort.Text.Control
import Cohort.Text.Letter
import Cohort.Text.Quoted
import Cohort.Toml.Document
import Cohort.Toml.Gap
import Cohort.Toml.Moment
import Cohort.Toml.MomentTable
import Cohort.Toml.Number
import Cohort.Toml.Quoted
import Cohort.Toml.Table
import Cohort.Toml.Value
