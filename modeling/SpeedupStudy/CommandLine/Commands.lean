/-
# The commands

The program collects the speedups of a study, normalizes a result table that is already there,
measures solo rates into a catalog, and writes a sample configuration or the built-in catalog. An
option is looked up when its turn comes, so the files of the steps before a faulty option are
already written.
-/

import SpeedupStudy.Calibration
import SpeedupStudy.Collection.Collect
import SpeedupStudy.CommandLine.Arguments
import SpeedupStudy.Report
import SpeedupStudy.Table.Normalized

namespace SpeedupStudy

/-- The name of the program in its own help. -/
def programName : String := "eval_results"

/-- Where a result table goes if no path is given. -/
def defaultResultTable : String := "per_core_simulation_results.csv"

/-- Where a normalized table goes if no path is given. -/
def defaultNormalizedTable : String := "plot.csv"

/-- The help of the program, line by line. -/
def usage : List String :=
  ["",
   "Simulation Result Evaluation Tool",
   "",
   "Usage:",
   "    " ++ programName ++ " collect --root <dir> [options]       Collect weighted speedups",
   "        --type <benign|malicious>                  Simulation type (default: benign)",
   "        --config <path.toml>                       Evaluation config",
   "        --catalog <path.toml>                      Run catalog (default: built-in)",
   "        --output <path.csv>                        Result table (default: " ++
     defaultResultTable ++ ")",
   "        --normalized <path.csv>                    Also write the normalized table",
   "        --summary <path.json>                      Also write the run report",
   "        --threads <n>                              Worker threads",
   "    " ++ programName ++ " normalize --input <path.csv> [--output <path.csv>]",
   "                                                   Normalize a result table (default: " ++
     defaultNormalizedTable ++ ")",
   "    " ++ programName ++ " calibrate --root <dir> --output <path.toml> [--catalog <path.toml>]",
   "                                                   Measure solo IPCs into a catalog",
   "    " ++ programName ++ " generate-config <path.toml>          Write a sample config",
   "    " ++ programName ++ " generate-catalog <path.toml>         Write the built-in catalog",
   "    " ++ programName ++ " --help                               Show this help",
   "",
   "Set RUST_LOG=debug for per-file output.",
   ""]

/-- A natural number at the right end of four places, or of more where it needs them. -/
def fourPlaces (n : Nat) : String :=
  let digits := toString n
  String.ofList (List.replicate (4 - digits.length) ' ') ++ digits

/-- The line that is printed when a pass turns to a file. -/
def Progress.line (p : Progress) : String :=
  "[" ++ fourPlaces (p.completed + 1) ++ "/" ++ fourPlaces p.total ++ "] " ++ p.file ++ " (" ++
    String.ofList (Decimal.tenths p.percent).plain ++ "%)"

/-- The line that is printed when a pass is over. -/
def PassSummary.doneLine (s : PassSummary) : String :=
  "Collected " ++ toString s.rows ++ " rows from " ++ toString s.discovered ++
    " files in " ++ toString s.elapsedMs ++ " ms"

/-- The lines in which the counts of a pass are printed. -/
def PassSummary.lines (s : PassSummary) : List String :=
  ["",
   "Files discovered:   " ++ toString s.discovered,
   "Other sim type:     " ++ toString s.otherScenario,
   "Rows produced:      " ++ toString s.rows,
   "Crashed / faulted:  " ++ toString s.crashed ++ " / " ++ toString s.faulted,
   "Skipped:            " ++ toString s.skipped ++ " (name " ++
     toString s.unparseableNames ++ ", unresolved " ++ toString s.unresolvedRuns ++
     ", unreadable " ++ toString s.unreadableLogs ++ ", duplicate " ++
     toString s.duplicates ++ ")",
   "Elapsed:            " ++ toString s.elapsedMs ++ " ms on " ++ toString s.threads ++
     " threads",
   ""]

/-- The lines in which the counts of a normalization are printed. -/
def NormalizationCounts.lines (s : NormalizationCounts) : List String :=
  ["Rows normalized:       " ++ toString s.normalized,
   "Rows without baseline: " ++ toString s.withoutBaseline,
   "Undefined values:      " ++ toString s.undefined,
   "Groups:                " ++ toString s.groups ++ " (" ++ toString s.undefinedGroups ++
     " undefined)"]

/-- The configuration that the program writes as a sample. -/
def sampleConfig : Config where
  catalogPath := some "configs/catalog.toml"
  execution := { threads := some 8 }
  metadata := some
    { name := "Mitigation sweep"
      description := some "Weighted speedup across mitigation thresholds"
      tags := some ["benign"] }

namespace Command

variable {m : Type → Type} [Monad m] [Files m] [Host m] [Console m]

/-- Print some lines. -/
def printAll (lines : List String) : Command m Unit :=
  lines.forM print

/-- The reporter that prints every step of a pass. -/
def consoleReporter : Reporter m where
  onProgress progress := Console.out progress.line
  onComplete summary := Console.out summary.doneLine

/-- The configuration of a pass: that of a file or the default, as the options change it. -/
def configOf (arguments : Arguments) : Command m Config := do
  let config ← match ← option arguments "--config" with
    | none => pure {}
    | some path =>
      let config ← attempt (Config.loadToml (Path.ofString path))
      print ("✅ Loaded configuration: " ++ path)
      pure config
  let config ← match ← option arguments "--type" with
    | none => pure config
    | some name =>
      match Scenario.ofName? name with
      | none => fail (.config (.unknownScenario name))
      | some t => pure (config.withScenario t)
  let config ← match ← option arguments "--catalog" with
    | none => pure config
    | some path => pure (config.withCatalogPath path)
  let config ← match ← option arguments "--threads" with
    | none => pure config
    | some text =>
      match (readCount? text.toList).filter (0 < ·) with
      | none => fail (.config (.invalidThreadCount text))
      | some threads => pure (config.setThreads (some (.ofNat threads)))
  attempt config.checked

/-- Collect the speedups of a study. -/
def collect (arguments : Arguments) : Command m Unit := do
  let root ← required arguments "--root"
  let config ← configOf arguments
  let catalog ← attempt config.loadCatalog
  print ("Collecting " ++ config.collection.scenario.name ++ " runs under " ++ root ++ " (" ++
    toString catalog.traces.size ++ " traces, " ++ toString catalog.mixes.size ++
    " mixes in catalog)")
  let reporter := if config.execution.reportProgress then consoleReporter else Reporter.silent
  let output ← attempt (Pass.collect ⟨config, catalog⟩ reporter (Path.ofString root))
  printAll output.summary.lines
  let table := (← option arguments "--output").getD defaultResultTable
  attempt (ResultTable.save config.collection.columns output (Path.ofString table))
  print ("✅ Result table: " ++ table)
  let normalization ← match ← option arguments "--normalized" with
    | none => pure none
    | some path =>
      let normalized := Normalization.ofRows output.rows
      attempt (NormalizedTable.save normalized.groups (Path.ofString path))
      print ("✅ Normalized table: " ++ path ++ " (" ++ toString normalized.groups.length ++
        " groups)")
      pure (some normalized.counts)
  match ← option arguments "--summary" with
  | none => pure ()
  | some path =>
    attempt (Report.save ⟨output.summary, normalization, config⟩ (Path.ofString path))
    print ("✅ Run report: " ++ path)

/-- Normalize a result table. -/
def normalize (arguments : Arguments) : Command m Unit := do
  let input ← required arguments "--input"
  let output := (← option arguments "--output").getD defaultNormalizedTable
  let rows ← attempt (ResultTable.load (Path.ofString input))
  let normalized := Normalization.ofTable rows
  attempt (NormalizedTable.save normalized.groups (Path.ofString output))
  printAll normalized.counts.lines
  print ("✅ Normalized table: " ++ output)

/-- Measure solo rates into a catalog. -/
def calibrate (arguments : Arguments) : Command m Unit := do
  let root ← required arguments "--root"
  let output ← required arguments "--output"
  let base ← match ← option arguments "--catalog" with
    | none => pure Catalog.builtin
    | some path => attempt (Catalog.load (Path.ofString path))
  let calibration ← attempt (Calibration.measure ⟨1, defaultFaultMarker⟩ (Path.ofString root))
  if calibration.isEmpty then
    fail (.input (.nothingMeasured root))
  printAll (calibration.crashed.map fun trace =>
    "⚠️  " ++ trace ++ ": single run reported no IPC, keeping catalog value")
  printAll (calibration.duplicates.map fun path =>
    "⚠️  " ++ path.display ++ ": trace already calibrated, ignored")
  let catalog ← attempt (calibration.apply base).checked
  attempt (catalog.save (Path.ofString output))
  print ("✅ Wrote catalog with " ++ toString calibration.ipcs.size ++ " measured IPCs: " ++ output)

/-- Write a sample configuration. -/
def generateConfig (path : String) : Command m Unit := do
  attempt (sampleConfig.saveToml (Path.ofString path))
  printAll
    ["✅ Generated sample config: " ++ path,
     "",
     "Edit the following fields before running:",
     "  - catalog_path: Catalog file (remove to use the built-in catalog)",
     "  - collect.sim_type: benign or malicious"]

/-- Write the built-in catalog. -/
def generateCatalog (path : String) : Command m Unit := do
  let catalog := Catalog.builtin
  match (Path.ofString path).parent? with
  | some above =>
    if ! above.bytes.isEmpty then attempt (Attempt.files (Files.createDirectories above))
  | none => pure ()
  attempt (catalog.save (Path.ofString path))
  print ("✅ Generated catalog with " ++ toString catalog.traces.size ++ " traces and " ++
    toString catalog.mixes.size ++ " mixes: " ++ path)

/-- The path after a command that takes nothing else. -/
def onPath (name : String) (run : String → Command m Unit) : List String → Command m Unit
  | [] => throw (.pathMissing name)
  | path :: _ => run path

/-- The command of a name, if there is one. -/
def ofName? (name : String) (args : List String) : Option (Command m Unit) :=
  match name with
  | "collect" => some (collect ⟨args⟩)
  | "normalize" => some (normalize ⟨args⟩)
  | "calibrate" => some (calibrate ⟨args⟩)
  | "generate-config" => some (onPath name generateConfig args)
  | "generate-catalog" => some (onPath name generateCatalog args)
  | _ => none

end Command

variable {m : Type → Type} [Monad m] [Files m] [Host m] [Console m]

/-- Print the help to the error output. -/
def printUsage : m Unit :=
  usage.forM Console.err

/-- Run the program with some arguments; the answer is its exit code. -/
def runProgram : List String → m UInt8
  | [] => do
    printUsage
    return 1
  | name :: args =>
    if name = "--help" || name = "-h" then do
      printUsage
      return 0
    else
      match Command.ofName? name args with
      | none => do
        Console.err ("Unknown command: " ++ name)
        printUsage
        return 1
      | some command => do
        match ← command.run with
        | .ok () => return 0
        | .error stop =>
          Console.err stop.line
          return stop.exitCode

end SpeedupStudy
