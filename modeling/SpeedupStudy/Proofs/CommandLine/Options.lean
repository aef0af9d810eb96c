/-
# Options in another order

A command reads its arguments only by looking options up. Where they are names with values, a
look-up finds the value that was given with the name, as a value is never taken for the name of an
option. So what the arguments say about an option does not depend on where it stands, nor on the
options that nobody asks for, and the program does the same for the same options in any order.
-/

import Mathlib
import SpeedupStudy.Proofs.CommandLine.Running
import SpeedupStudy.Proofs.NameMap

namespace SpeedupStudy

/-- The arguments that give options their values, each name followed by its value. -/
def argumentsOf (options : List (String × String)) : List String :=
  options.flatMap fun option => [option.1, option.2]

/-- Options that are given once each, with values that are not names of options. -/
structure Options where
  given : List (String × String)
  valued : ∀ option ∈ given, isOptionName option.2 = false
  distinct : (given.map (·.1)).Nodup

/-- Options in another order. -/
def Options.reorder (options : Options) {given : List (String × String)}
    (reordered : options.given.Perm given) : Options where
  given
  valued option mem := options.valued option (reordered.mem_iff.mpr mem)
  distinct := (reordered.map _).nodup_iff.mp options.distinct

/-- What it says about an option that it has this value. -/
def OptionValue.ofLookup : Option String → OptionValue
  | none => .absent
  | some text => .value text

/-- Looking up an option in arguments with names and values finds the value of the name. -/
theorem Arguments.find_argumentsOf {options : List (String × String)}
    (valued : ∀ option ∈ options, isOptionName option.2 = false) {name : String}
    (asked : isOptionName name = true) :
    find ⟨argumentsOf options⟩ name = .ofLookup (options.lookup name) := by
  induction options with
  | nil => rfl
  | cons option rest ih =>
      obtain ⟨other, text⟩ := option
      obtain ⟨noName, valued⟩ := List.forall_mem_cons.mp valued
      have later := ih valued
      rw [NameMap.lookup_cons]
      by_cases same : name = other
      · subst same
        simp [find, argumentsOf, noName, OptionValue.ofLookup]
      · have apart : text ≠ name := by
          rintro rfl
          rw [asked] at noName
          cases noName
        rw [if_neg same, ← later]
        simp [find, argumentsOf, Ne.symm same, apart]

/-- Whether arguments say the same about every option. -/
def Arguments.Agree (arguments arguments' : Arguments) : Prop :=
  ∀ name, isOptionName name = true → arguments.find name = arguments'.find name

/-- Options say the same in any order. -/
theorem Options.agree_reorder (options : Options) {given : List (String × String)}
    (reordered : options.given.Perm given) :
    Arguments.Agree ⟨argumentsOf options.given⟩ ⟨argumentsOf given⟩ := by
  intro name asked
  have found := Arguments.find_argumentsOf (options.reorder reordered).valued asked
  rw [Arguments.find_argumentsOf options.valued asked,
    NameMap.lookup_perm options.distinct reordered]
  exact found.symm

namespace Command

variable {m : Type → Type} [Monad m] {arguments arguments' : Arguments} {name : String}

theorem option_congr (agree : arguments.Agree arguments') (asked : isOptionName name = true) :
    (option arguments name : Command m (Option String)) = option arguments' name := by
  rw [option, option, agree name asked]

theorem required_congr (agree : arguments.Agree arguments') (asked : isOptionName name = true) :
    (required arguments name : Command m String) = required arguments' name := by
  rw [required, required, option_congr agree asked]

variable [Files m]

theorem normalize_congr [Console m] (agree : arguments.Agree arguments') :
    (normalize arguments : Command m Unit) = normalize arguments' := by
  rw [normalize, normalize, required_congr agree (by decide), option_congr agree (by decide)]

theorem calibrate_congr [Console m] (agree : arguments.Agree arguments') :
    (calibrate arguments : Command m Unit) = calibrate arguments' := by
  rw [calibrate, calibrate, required_congr agree (by decide), required_congr agree (by decide),
    option_congr agree (by decide)]

variable [Console m]

theorem configOf_congr (agree : arguments.Agree arguments') :
    (configOf arguments : Command m Config) = configOf arguments' := by
  rw [configOf, configOf, option_congr agree (by decide), option_congr agree (by decide),
    option_congr agree (by decide), option_congr agree (by decide)]

theorem collect_congr [Host m] (agree : arguments.Agree arguments') :
    (collect arguments : Command m Unit) = collect arguments' := by
  rw [collect, collect, required_congr agree (by decide), configOf_congr agree,
    option_congr agree (by decide), option_congr agree (by decide),
    option_congr agree (by decide)]

end Command

/-- The commands that take options. -/
def commandsWithOptions : List String :=
  ["collect", "normalize", "calibrate"]

/-- On any system the program does the same with the same options in another order. -/
theorem runProgram_reorder {m : Type → Type} [Monad m] [Files m] [Host m] [Console m]
    {command : String} (known : command ∈ commandsWithOptions) (options : Options)
    {given : List (String × String)} (reordered : options.given.Perm given) :
    (runProgram (command :: argumentsOf options.given) : m UInt8) =
      runProgram (command :: argumentsOf given) := by
  have agree := options.agree_reorder reordered
  have named : (Command.ofName? command (argumentsOf options.given) : Option (Command m Unit)) =
      Command.ofName? command (argumentsOf given) := by
    simp only [commandsWithOptions, List.mem_cons, List.not_mem_nil, or_false] at known
    rcases known with rfl | rfl | rfl
    · exact congrArg some (Command.collect_congr agree)
    · exact congrArg some (Command.normalize_congr agree)
    · exact congrArg some (Command.calibrate_congr agree)
  rw [runProgram, runProgram, named]

/-- The order of options makes no difference. Where options are given once each, with values that
are not names of options, a command that gets them in another order exits with the same code, prints
the same and leaves the same disk, whatever it knows of the options and whatever is on the disk. -/
theorem runOn_reorder {command : String} (known : command ∈ commandsWithOptions) (options : Options)
    {given : List (String × String)} (reordered : options.given.Perm given) (disk : Disk) :
    runOn disk (command :: argumentsOf options.given) =
      runOn disk (command :: argumentsOf given) := by
  rw [runOn, runOn, runProgram_reorder known options reordered]

section Sample

/-- A disk with a table that has no records, and other entries. -/
def emptyTable (others : List (Bytes × Node)) : Disk :=
  ⟨.directory ((Utf8.encode "t", .file (Utf8.encode "method,run_mode,config,run_base,sum\n")) ::
    others)⟩

/-- Options to normalize the table, with one that nobody asks for. -/
def emptyTableOptions : Options where
  given := [("--input", "t"), ("--color", "never"), ("--output", "p")]
  valued := by decide
  distinct := by decide

end Sample

/-- An empty table is normalized into an empty one, wherever the output is named. -/
theorem runOn_reorder_emptyTable :
    let given := [("--output", "p"), ("--input", "t"), ("--color", "never")]
    let exit := runOn (emptyTable []) ("normalize" :: argumentsOf given)
    "normalize" ∈ commandsWithOptions ∧ emptyTableOptions.given.Perm given ∧
      runOn (emptyTable []) ("normalize" :: argumentsOf emptyTableOptions.given) = exit ∧
      exit.code = 0 ∧ exit.disk.read (Path.ofString "p") =
        .ok (Utf8.encode "method,mode3,config,geomean_normalized_sum\n") := by
  intro given exit
  have known : "normalize" ∈ commandsWithOptions := by decide
  have reordered : emptyTableOptions.given.Perm given := by decide
  exact ⟨known, reordered, runOn_reorder known emptyTableOptions reordered (emptyTable []), rfl,
    by decide +kernel⟩

end SpeedupStudy
