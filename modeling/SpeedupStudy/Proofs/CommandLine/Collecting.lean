/-
# What a collection writes

A collection only runs under a usable configuration, and a pass leaves the disk as it is. One that
succeeds has then written a result table and, where it was asked to, the normalized table of the
same rows and a report, in this order.
-/

import SpeedupStudy.Proofs.Collection.Table
import SpeedupStudy.Proofs.CommandLine.Running

namespace SpeedupStudy

namespace Command

/-- A command only goes on with a usable configuration. -/
theorem gives_configOf (arguments : Arguments) :
    Gives (configOf arguments : Command TerminalM Config) fun config => config.problem? = none := by
  have checked : ∀ config : Config, Gives (attempt config.checked : Command TerminalM Config)
      fun config => config.problem? = none := by
    intro config state disk found final after done
    rw [onDisk_attempt] at done
    unfold Config.checked at done
    cases problem : config.problem? with
    | some fault => simp [problem, Attempt.refuse, Except.mapError] at done
    | none =>
        simp [problem, Attempt.refuse, Except.mapError] at done
        rw [← done.1, problem]
  unfold configOf
  -- Each option is absent, present or faulty, and whatever comes of them the check comes last.
  repeat' first
    | split
    | refine Gives.bind fun _ => ?_
    | exact checked _

/-- Either reporter of a collection only adds to what the terminal shows. -/
theorem exists_observing (reportProgress : Bool) :
    ∃ onProgress onComplete,
      (if reportProgress then consoleReporter else Reporter.silent : Reporter TerminalM) =
        Reporter.observing onProgress onComplete := by
  cases reportProgress with
  | true =>
      exact ⟨fun progress t => { t with out := t.out ++ [progress.line] },
        fun summary t => { t with out := t.out ++ [summary.doneLine] }, rfl⟩
  | false => exact ⟨fun _ t => t, fun _ t => t, rfl⟩

end Command

/-- A pass over the logs below a root that gave results scored them, and left the disk as it was. -/
theorem Pass.scored_of_onDisk_collect {pass : Pass} {reporter : Reporter TerminalM} {root : Path}
    {terminal final : Terminal} {disk after : Disk} {output : Collection}
    (observing : ∃ onProgress onComplete, reporter = Reporter.observing onProgress onComplete)
    (hasCores : pass.config.collection.coreCount ≠ 0)
    (done : onDisk (pass.collect reporter root) terminal disk = ⟨.ok output, final, after⟩) :
    output.Scored ∧ after = disk ∧ disk.top.HasDirectory [] := by
  obtain ⟨onProgress, onComplete, rfl⟩ := observing
  obtain ⟨files, between, middle, discovered, collected⟩ := onDisk_bind_eq_ok_iff.mp done
  obtain ⟨rfl, outcomes, found, rfl⟩ := results_of_onDisk_collectFiles collected
  obtain ⟨listing, between', middle', listed, rest⟩ := onDisk_bind_eq_ok_iff.mp discovered
  rw [onDisk_listing] at listed
  cases found' : disk.listing root with
  | error e => simp [found', Except.mapError] at listed
  | ok listing' =>
      simp only [found', Except.mapError, Ended.mk.injEq, Except.ok.injEq] at listed
      obtain ⟨rfl, rfl, rfl⟩ := listed
      cases listing' with
      | none => cases rest
      | some shape =>
          cases shape with
          | other => cases rest
          | directory entries =>
              cases rest
              exact ⟨scored_results found hasCores, rfl, Disk.hasDirectory_of_listing found'⟩

/-- What a collection did that succeeded: with its output it wrote the result table, then the
normalized table, and then the report if it was asked for one. -/
structure Writes (arguments : Arguments) (table normalized : Path) (columns : ValueColumns)
    (output : Collection) (start first second final : Disk) : Prop where
  scored : output.Scored
  root : start.top.HasDirectory []
  table : start.writeWithParents table (ResultTable.render columns output).1 = (.ok (), first)
  normalized : first.writeWithParents normalized
    (NormalizedTable.render (Normalization.ofRows output.rows).groups) = (.ok (), second)
  report : final = second ∧ arguments.find "--summary" = .absent ∨
    ∃ summary contents, arguments.find "--summary" = .value summary ∧
      second.writeWithParents (Path.ofString summary) contents = (.ok (), final)

section Saving

variable {σ : Type} {state final : σ} {disk after : Disk} {path : Path}

theorem writeWithParents_of_onDisk {contents : Bytes}
    (done : onDisk (Attempt.files (Files.writeWithParents path contents) :
      Attempt (StateT σ DiskM) Unit) state disk = ⟨.ok (), final, after⟩) :
    disk.writeWithParents path contents = (.ok (), after) := by
  rw [onDisk_writeWithParents] at done
  generalize disk.writeWithParents path contents = attempt at done ⊢
  obtain ⟨result, left⟩ := attempt
  cases result with
  | error e => simp [Except.mapError] at done
  | ok _ =>
      cases done
      rfl

/-- A result table that was saved is on the disk as a whole. -/
theorem writeWithParents_of_onDisk_save {columns : ValueColumns} {output : Collection}
    (done : onDisk (ResultTable.save columns output path : Attempt (StateT σ DiskM) Unit) state
      disk = ⟨.ok (), final, after⟩) :
    disk.writeWithParents path (ResultTable.render columns output).1 = (.ok (), after) := by
  unfold ResultTable.save ResultTable.render? at done
  by_cases listed : ResultTable.canListHeader columns output.coreCount = true
  · simp only [if_pos listed] at done
    obtain ⟨_, between, middle, saved, rest⟩ := onDisk_bind_eq_ok_iff.mp done
    rw [writeWithParents_of_onDisk saved]
    cases broken : (ResultTable.render columns output).2 with
    | none =>
        rw [broken] at rest
        cases rest
        rfl
    | some mismatch =>
        rw [broken] at rest
        cases rest
  · simp only [if_neg listed] at done
    obtain ⟨_, between, middle, -, failed⟩ := onDisk_bind_eq_ok_iff.mp done
    cases failed

/-- Saving the table of scored results writes it, or fails as the writing does. -/
theorem onDisk_save {columns : ValueColumns} {output : Collection} (scored : output.Scored)
    (listed : ResultTable.canListHeader columns output.coreCount = true) :
    onDisk (ResultTable.save columns output path : Attempt (StateT σ DiskM) Unit) state disk =
      let written := disk.writeWithParents path (ResultTable.render columns output).1
      ⟨written.1.mapError .io, state, written.2⟩ := by
  unfold ResultTable.save ResultTable.render?
  simp only [if_pos listed, ResultTable.saveText, onDisk_bind, onDisk_writeWithParents,
    ResultTable.render_snd scored]
  generalize disk.writeWithParents _ _ = attempt
  obtain ⟨result, left⟩ := attempt
  cases result <;> rfl

end Saving

/-- A collection that was told where to put its tables has written them when it succeeds. -/
theorem exists_writes_of_onDisk_collect {arguments : Arguments} {table normalized : String}
    {terminal terminal' : Terminal} {disk final : Disk}
    (tableAt : arguments.find "--output" = .value table)
    (normalizedAt : arguments.find "--normalized" = .value normalized)
    (done : onDisk (Command.collect arguments) terminal disk = ⟨.ok (), terminal', final⟩) :
    ∃ columns output start first second,
      Writes arguments (Path.ofString table) (Path.ofString normalized) columns output start first
        second final := by
  unfold Command.collect at done
  obtain ⟨root, _, _, -, done⟩ := onDisk_bind_eq_ok_iff.mp done
  obtain ⟨config, _, _, configured, done⟩ := onDisk_bind_eq_ok_iff.mp done
  obtain ⟨catalog, _, _, -, done⟩ := onDisk_bind_eq_ok_iff.mp done
  obtain ⟨_, _, _, -, done⟩ := onDisk_bind_eq_ok_iff.mp done
  obtain ⟨output, _, start, collected, done⟩ := onDisk_bind_eq_ok_iff.mp done
  obtain ⟨_, _, _, printed, done⟩ := onDisk_bind_eq_ok_iff.mp done
  rw [onDisk_printAll] at printed
  cases printed
  obtain ⟨_, _, _, option, done⟩ := onDisk_bind_eq_ok_iff.mp done
  rw [onDisk_option, tableAt] at option
  cases option
  obtain ⟨_, _, first, saved, done⟩ := onDisk_bind_eq_ok_iff.mp done
  obtain ⟨_, _, _, printed, done⟩ := onDisk_bind_eq_ok_iff.mp done
  rw [onDisk_print] at printed
  cases printed
  obtain ⟨_, _, _, option, done⟩ := onDisk_bind_eq_ok_iff.mp done
  rw [onDisk_option, normalizedAt] at option
  cases option
  obtain ⟨_, _, second, savedNormalized, done⟩ := onDisk_bind_eq_ok_iff.mp done
  obtain ⟨_, _, _, printed, done⟩ := onDisk_bind_eq_ok_iff.mp done
  rw [onDisk_print] at printed
  cases printed
  obtain ⟨counts, _, _, counted, done⟩ := onDisk_bind_eq_ok_iff.mp done
  rw [onDisk_pure] at counted
  cases counted
  obtain ⟨summary, _, _, option, done⟩ := onDisk_bind_eq_ok_iff.mp done
  have usable := Command.gives_configOf arguments _ _ _ _ _ configured
  have hasCores : config.collection.coreCount ≠ 0 := by
    intro none
    simp [Config.problem?, CollectionConfig.problem?, none] at usable
  obtain ⟨scored, rfl, root⟩ := Pass.scored_of_onDisk_collect (Command.exists_observing _) hasCores
    (onDisk_of_onDisk_attempt collected)
  refine ⟨config.collection.columns, output, _, first, second, scored, root,
    writeWithParents_of_onDisk_save (onDisk_of_onDisk_attempt saved),
    writeWithParents_of_onDisk (onDisk_of_onDisk_attempt savedNormalized), ?_⟩
  rw [onDisk_option] at option
  cases asked : arguments.find "--summary" with
  | absent =>
      rw [asked] at option
      cases option
      cases done
      exact .inl ⟨rfl, rfl⟩
  | missing =>
      rw [asked] at option
      cases option
  | value path =>
      rw [asked] at option
      cases option
      obtain ⟨_, _, _, reported, done⟩ := onDisk_bind_eq_ok_iff.mp done
      cases done
      exact .inr ⟨path, _, rfl, writeWithParents_of_onDisk (onDisk_of_onDisk_attempt reported)⟩

end SpeedupStudy
