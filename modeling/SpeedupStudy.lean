import SpeedupStudy.Main
import SpeedupStudy.Proofs.Collection.Accounting
import SpeedupStudy.Proofs.Collection.Locality
import SpeedupStudy.Proofs.Collection.Scores
import SpeedupStudy.Proofs.CommandLine.Normalizing
import SpeedupStudy.Proofs.Normalization
import SpeedupStudy.Proofs.Collection.Reordering
import SpeedupStudy.Proofs.Decimal.Padding
import SpeedupStudy.Proofs.Toml.Quoted
import SpeedupStudy.Proofs.Toml.Scalar
import SpeedupStudy.Proofs.Document.Fields
import SpeedupStudy.Proofs.Toml.Value
import SpeedupStudy.Proofs.NameMap
import SpeedupStudy.Proofs.Toml.RoundTrip
import SpeedupStudy.Proofs.FileSystem.Text
import SpeedupStudy.Proofs.Catalog.File
import SpeedupStudy.Proofs.Json.RoundTrip
import SpeedupStudy.Proofs.Config.File
import SpeedupStudy.Proofs.Calibration
import SpeedupStudy.Proofs.CommandLine.Calibrating
import SpeedupStudy.Proofs.CommandLine.Usage
import SpeedupStudy.Proofs.Calibration.Deciding
import SpeedupStudy.Proofs.Collection.InRange
import SpeedupStudy.Proofs.Collection.Limits
import SpeedupStudy.Proofs.Collection.Baselines
import SpeedupStudy.Proofs.Catalog.Resolution
import SpeedupStudy.Proofs.Decimal.Order
import SpeedupStudy.Proofs.Run.TotalOrder
import SpeedupStudy.Proofs.Text.Blank
import SpeedupStudy.Proofs.Text.Lines
import SpeedupStudy.Proofs.Text.Occurrence
import SpeedupStudy.Proofs.Binary64.Arithmetic
import SpeedupStudy.Proofs.Decimal.Characters
import SpeedupStudy.Proofs.Log.Written
import SpeedupStudy.Proofs.Speedup.Range
import SpeedupStudy.Proofs.Log.Continuation
import SpeedupStudy.Proofs.Calibration.Accounting
import SpeedupStudy.Proofs.Path
import SpeedupStudy.Proofs.Collection.Groups
import SpeedupStudy.Proofs.FileSystem.Entries
import SpeedupStudy.Proofs.Run.Extension
import SpeedupStudy.Proofs.Collection.Discovery
import SpeedupStudy.Proofs.Collection.WorkList
import SpeedupStudy.Proofs.FileSystem.Made
import SpeedupStudy.Proofs.Log.LineEnds
import SpeedupStudy.Proofs.Table.Columns
import SpeedupStudy.Proofs.Normalization.Unchanged
import SpeedupStudy.Proofs.Collection.Scheduling
import SpeedupStudy.Proofs.CommandLine.Options
import SpeedupStudy.Proofs.Calibration.Duplicates
import SpeedupStudy.Proofs.Csv.Lines
import SpeedupStudy.Proofs.Table.Faults
