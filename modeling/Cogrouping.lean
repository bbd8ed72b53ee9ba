import Cogrouping.Bytes
import Cogrouping.Decimal.Binary
import Cogrouping.Decimal.Shortest
import Cogrouping.Decimal.Style
import Cogrouping.Dictionary
import Cogrouping.Digest
import Cogrouping.Digest.Blake3
import Cogrouping.Error
import Cogrouping.Identifier
import Cogrouping.Job
import Cogrouping.Job.Printer
import Cogrouping.Job.Reader
import Cogrouping.Json.Decoder
import Cogrouping.Json.Lexeme
import Cogrouping.Json.Tree
import Cogrouping.Json.Value
import Cogrouping.Layout
import Cogrouping.Order.Comparators
import Cogrouping.Order.Record
import Cogrouping.Order.Sort
import Cogrouping.Order.Sort.Insertion
import Cogrouping.Order.Sort.Merge
import Cogrouping.Order.Sort.Quick
import Cogrouping.Order.Sort.Runs
import Cogrouping.Order.Sort.Short
import Cogrouping.Partition
import Cogrouping.Plan
import Cogrouping.Rollup.Engine
import Cogrouping.Rollup.Handler
import Cogrouping.Rollup.Key
import Cogrouping.Runner
import Cogrouping.Schema
import Cogrouping.Schema.Text
import Cogrouping.Settings
import Cogrouping.SortOrder
import Cogrouping.Stream
import Cogrouping.Stream.Listed
import Cogrouping.Text.Blank
import Cogrouping.Text.Printable
import Cogrouping.Text.Quoted
import Cogrouping.Text.Utf8
import Cogrouping.Tuple
import Cogrouping.Value
import Cogrouping.Wire.Constants
import Cogrouping.Wire.Field
import Cogrouping.Wire.Objects
import Cogrouping.Wire.OrderedFloat
import Cogrouping.Wire.Record
import Cogrouping.Wire.Varint
import Cogrouping.Proofs.Bytes
import Cogrouping.Proofs.Wire.Varint
import Cogrouping.Proofs.Wire.Constants
import Cogrouping.Proofs.Outcome
import Cogrouping.Proofs.Text.Utf8
import Cogrouping.Proofs.Wire.Field
import Cogrouping.Proofs.Dictionary
import Cogrouping.Proofs.Layout
import Cogrouping.Proofs.Plan
import Cogrouping.Proofs.Row
import Cogrouping.Proofs.Wire.Record
import Cogrouping.Proofs.Wire.RoundTrip
import Cogrouping.Proofs.Order.Keys
import Cogrouping.Proofs.Order.Resolved
import Cogrouping.Proofs.Order.Rows
import Cogrouping.Proofs.Order.Records
import Cogrouping.Proofs.Order.Configured
import Cogrouping.Proofs.Order.Runs
import Cogrouping.Proofs.Stream
import Cogrouping.Proofs.Rollup.Calls
import Cogrouping.Proofs.Rollup.Trace
import Cogrouping.Proofs.Order.Total
import Cogrouping.Proofs.Rollup.Rows
import Cogrouping.Proofs.Partition
import Cogrouping.Proofs.Runner.Cogroups
import Cogrouping.Proofs.Runner.Entries
import Cogrouping.Proofs.Runner.Walks
import Cogrouping.Proofs.Plan.Split
import Cogrouping.Proofs.Plan.WellFormed
import Cogrouping.Proofs.Rollup.Keys
import Cogrouping.Proofs.Rollup.Brackets
import Cogrouping.Proofs.Rollup.Nested
import Cogrouping.Proofs.Order.Tuples
import Cogrouping.Proofs.Rollup.Together
import Cogrouping.Proofs.Wire.Limits
import Cogrouping.Proofs.Rollup.Faults
import Cogrouping.Proofs.Stream.Requests
import Cogrouping.Proofs.Partition.Colocated
import Cogrouping.Proofs.Rollup.Coupled
import Cogrouping.Proofs.Rollup.Recorded
import Cogrouping.Proofs.Rollup.Cut
import Cogrouping.Proofs.Runner.Refused
import Cogrouping.Proofs.Runner.Contained
import Cogrouping.Proofs.Wire.Spelling
import Cogrouping.Proofs.Wire.Accepted
import Cogrouping.Proofs.Wire.Parses
import Cogrouping.Proofs.Wire.Canonical
import Cogrouping.Proofs.Plan.Rearranged
import Cogrouping.Proofs.Json.Text
import Cogrouping.Proofs.Json.Decoder
import Cogrouping.Proofs.Job.Text
import Cogrouping.Proofs.Wire.Checked
import Cogrouping.Proofs.Phases.Assembly
import Cogrouping.Proofs.Phases.Records
import Cogrouping.Proofs.Rollup.Resumed
import Cogrouping.Proofs.Rollup.Reading
import Cogrouping.Proofs.Phases.Plain
import Cogrouping.Proofs.Phases.Unreached
import Cogrouping.Proofs.Wire.Boundaries
import Cogrouping.Proofs.Wire.Appended
import Cogrouping.Proofs.Order.Visits
import Cogrouping.Proofs.Guarded.Operations
import Cogrouping.Proofs.Guarded.Fields
import Cogrouping.Proofs.Guarded.Records
import Cogrouping.Proofs.Guarded.Comparisons
import Cogrouping.Proofs.Wire.Ordinals
import Cogrouping.Proofs.Wire.Delimited
import Cogrouping.Proofs.Wire.TotalOrder
import Cogrouping.Proofs.Text.Blank
import Cogrouping.Proofs.Text.Displayed
