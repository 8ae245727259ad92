import PinnedBench.Arithmetic
import PinnedBench.Bench.Configuration
import PinnedBench.Bench.Implementation
import PinnedBench.Bench.Outcome
import PinnedBench.Bench.Run
import PinnedBench.Bench.Workload
import PinnedBench.Command.Basic
import PinnedBench.Command.Execution
import PinnedBench.Command.Failure
import PinnedBench.Command.Line
import PinnedBench.Command.Program
import PinnedBench.Command.Usage
import PinnedBench.Conversion.Build
import PinnedBench.Conversion.Entry
import PinnedBench.Conversion.Synthesis
import PinnedBench.Dataset.Content
import PinnedBench.Dataset.Descriptor
import PinnedBench.Dataset.Directory
import PinnedBench.Dataset.Parameters
import PinnedBench.Decimal.Fixed
import PinnedBench.Decimal.Nearest
import PinnedBench.Decimal.Shortest
import PinnedBench.Decimal.Style
import PinnedBench.Digest.Sha256
import PinnedBench.Double
import PinnedBench.Fault
import PinnedBench.Files.Access
import PinnedBench.Files.Path
import PinnedBench.Files.Store
import PinnedBench.Impact.Configuration
import PinnedBench.Impact.Projection
import PinnedBench.Impact.Rates
import PinnedBench.Json.Decoder
import PinnedBench.Json.Printer
import PinnedBench.Json.Tree
import PinnedBench.Json.Value
import PinnedBench.Keyed
import PinnedBench.Machine.Clock
import PinnedBench.Machine.Host
import PinnedBench.Machine.Repository
import PinnedBench.Machine.Stamp
import PinnedBench.Machine.Workbench
import PinnedBench.Main
import PinnedBench.Profile.Counters
import PinnedBench.Profile.Encoding
import PinnedBench.Profile.Handover
import PinnedBench.Profile.Series
import PinnedBench.Random.Generator
import PinnedBench.Random.Noise
import PinnedBench.Report.Basic
import PinnedBench.Report.Build
import PinnedBench.Report.Encoding
import PinnedBench.Report.Files
import PinnedBench.Results.Csv
import PinnedBench.Results.Table
import PinnedBench.Stats.Comparison
import PinnedBench.Stats.Statistics
import PinnedBench.Text.Blank
import PinnedBench.Text.Hexadecimal
import PinnedBench.Text.Lines
import PinnedBench.Text.Numeral
import PinnedBench.Toml.Document
import PinnedBench.Toml.Scalar
import PinnedBench.Toml.Tables
import PinnedBench.Toml.Value
import PinnedBench.Usage.Item
import PinnedBench.Usage.Reader
import PinnedBench.Proofs.Outcomes
import PinnedBench.Proofs.Arithmetic
import PinnedBench.Proofs.Random.Draws
import PinnedBench.Proofs.Stats.Scaling
import PinnedBench.Proofs.Stats.Ordering
import PinnedBench.Proofs.Files.Changes
import PinnedBench.Proofs.Json.Numbers
import PinnedBench.Proofs.Json.Strings
import PinnedBench.Proofs.Json.Documents
import PinnedBench.Proofs.Json.Records
import PinnedBench.Proofs.Dataset.Descriptors
import PinnedBench.Proofs.Dataset.Sizes
import PinnedBench.Proofs.Digest.Hexadecimal
import PinnedBench.Proofs.Dataset.Generation
import PinnedBench.Proofs.Dataset.Verification
import PinnedBench.Proofs.Dataset.Pinning
import PinnedBench.Proofs.Dataset.Identity
import PinnedBench.Proofs.Bench.Noise
import PinnedBench.Proofs.Bench.Preflight
import PinnedBench.Proofs.Json.Values
import PinnedBench.Proofs.Bench.Summaries
import PinnedBench.Proofs.Command.Sessions
import PinnedBench.Proofs.Command.Steps
import PinnedBench.Proofs.Command.Watching
import PinnedBench.Proofs.Command.Traces
import PinnedBench.Proofs.Json.Prefixes
import PinnedBench.Proofs.Dataset.Interruption
import PinnedBench.Proofs.Results.Tables
import PinnedBench.Proofs.Bench.Readback
import PinnedBench.Proofs.Stats.Medians
import PinnedBench.Proofs.Command.Agreement
import PinnedBench.Proofs.Results.Breaks
import PinnedBench.Proofs.Json.Readings
import PinnedBench.Proofs.Report.Readback
import PinnedBench.Proofs.Decimal.Fixed
import PinnedBench.Proofs.Decimal.Nearest
import PinnedBench.Proofs.Decimal.Shortest
import PinnedBench.Proofs.Report.Audit
import PinnedBench.Proofs.Json.Yields
import PinnedBench.Proofs.Report.Sources
import PinnedBench.Proofs.Command.Rereading
import PinnedBench.Proofs.Results.Exactness
import PinnedBench.Proofs.Profile.Handovers
import PinnedBench.Proofs.Usage.Omissions
import PinnedBench.Proofs.Command.Labels
import PinnedBench.Proofs.Keyed
import PinnedBench.Proofs.Conversion.Selection
import PinnedBench.Proofs.Bench.Implementations
import PinnedBench.Proofs.Bench.Profiles
import PinnedBench.Proofs.Results.Numbering
import PinnedBench.Proofs.Conversion.SharedNoise
import PinnedBench.Proofs.Profile.Curves
import PinnedBench.Proofs.Profile.Peaks
import PinnedBench.Proofs.Double.Values
import PinnedBench.Proofs.Double.Rounding
import PinnedBench.Proofs.Double.Sums
import PinnedBench.Proofs.Double.Quotients
import PinnedBench.Proofs.Stats.Sorting
import PinnedBench.Proofs.Stats.Positions
import PinnedBench.Proofs.Double.Order
import PinnedBench.Proofs.Double.Signs
import PinnedBench.Proofs.Stats.Compensation
import PinnedBench.Proofs.Stats.Spread
import PinnedBench.Proofs.Stats.Figures
import PinnedBench.Proofs.Stats.Reordering
import PinnedBench.Proofs.Stats.Units
import PinnedBench.Proofs.Stats.Fallbacks
import PinnedBench.Proofs.Dataset.Admission
import PinnedBench.Proofs.Dataset.Consistency
import PinnedBench.Proofs.Text.Numerals
import PinnedBench.Proofs.Text.Pieces
import PinnedBench.Proofs.Text.Lines
import PinnedBench.Proofs.Bench.Grammar
import PinnedBench.Proofs.Results.Flaws
import PinnedBench.Proofs.Results.Endings
import PinnedBench.Proofs.Report.Partial
import PinnedBench.Proofs.Profile.Loads
import PinnedBench.Proofs.Results.Fields
import PinnedBench.Proofs.Profile.Columns
import PinnedBench.Proofs.Profile.Traffic
import PinnedBench.Proofs.Random.Bounds
import PinnedBench.Proofs.Conversion.Ranges
