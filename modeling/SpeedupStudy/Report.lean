/-
# Reports

A report is a JSON document that tells what became of the files of a pass, how its rows were
normalized, if they were, and under which configuration the pass ran.
-/

import SpeedupStudy.Collection.Basic
import SpeedupStudy.Config.File
import SpeedupStudy.Normalization

namespace SpeedupStudy

/-- The document of the counts of a pass. -/
def PassSummary.toValue (s : PassSummary) : Value :=
  .table
    [("sim_type", .text s.scenario.name),
     ("files_discovered", .natural s.discovered),
     ("filtered_out", .natural s.otherScenario),
     ("files_processed", .natural s.processed),
     ("files_skipped", .natural s.skipped),
     ("skipped_unparseable_name", .natural s.unparseableNames),
     ("skipped_unresolved", .natural s.unresolvedRuns),
     ("skipped_unreadable", .natural s.unreadableLogs),
     ("skipped_duplicate", .natural s.duplicates),
     ("rows_produced", .natural s.rows),
     ("crashed_runs", .natural s.crashed),
     ("faulted_runs", .natural s.faulted),
     ("threads_used", .natural s.threads),
     ("elapsed_ms", .natural s.elapsedMs),
     ("generated_at", .text s.timestamp)]

/-- The document of the counts of a normalization. -/
def NormalizationCounts.toValue (s : NormalizationCounts) : Value :=
  .table
    [("rows_normalized", .natural s.normalized),
     ("rows_without_baseline", .natural s.withoutBaseline),
     ("undefined_values", .natural s.undefined),
     ("groups", .natural s.groups),
     ("undefined_groups", .natural s.undefinedGroups)]

/-- What a report tells. -/
structure Report where
  collection : PassSummary
  normalization : Option NormalizationCounts := none
  config : Config

namespace Report

/-- The document of a report. -/
def toValue (r : Report) : Value :=
  Value.tableOfPresent
    [("collection", some r.collection.toValue),
     ("normalization", r.normalization.map (·.toValue)),
     ("config", some r.config.toValue)]

/-- The text of a report. -/
def render (r : Report) : String :=
  Json.render r.toValue

/-- Write a report to a file, making the directories above it. -/
def save {m : Type → Type} [Monad m] [Files m] (r : Report) (path : Path) : Attempt m Unit :=
  Attempt.files (Files.writeWithParents path (Utf8.encode r.render))

end Report

end SpeedupStudy
