/-
# The row of a run depends on its own files

Two passes with one configuration and one catalog may run over different lists of files on different
disks. If both list the same files of a key in the same order and these files read the same, then
both give the same row of the key, or none, and skip the same of these files for the same causes.
All other files may be added, removed or changed, as they move the rows of the key and separate them
in the sorted list but neither reorder nor join them.
-/

import SpeedupStudy.Proofs.Collection.Rows

namespace SpeedupStudy

instance : Std.TransCmp fun a b : SkippedLog => a.path.compare b.path :=
  transCmp_comap fun file : SkippedLog => file.path.components.map Component.rank

namespace Pass

/-- Whether the name of a file names a run of a key, and of the scenario of a pass. -/
def names (pass : Pass) (key : Run.Key) (path : Path) : Bool :=
  match Run.ofPath path with
  | .error _ => false
  | .ok run => run.key = key && run.belongsTo pass.config.collection.scenario

theorem names_eq_true_iff {pass : Pass} (key : Run.Key) {path : Path} {run : Run}
    (named : Run.ofPath path = .ok run)
    (scenario : run.effectiveScenario = pass.config.collection.scenario) :
    pass.names key path = true ↔ run.key = key := by
  simp [names, named, Run.belongsTo, scenario]

variable {pass : Pass} {key : Run.Key} {disk disk' : Disk} {files files' : List Path}
  {outcomes outcomes' : List Outcome}

/-- What is found in the files of a key only is the same for lists and disks that agree on them. -/
theorem filterMap_eq_of_names {β : Type} {find find' : Path → Option β}
    (sameFiles : files.filter (pass.names key) = files'.filter (pass.names key))
    (sameFound : ∀ path ∈ files, pass.names key path = true → find path = find' path)
    (outside : ∀ path ∈ files, pass.names key path = false → find path = none)
    (outside' : ∀ path ∈ files', pass.names key path = false → find' path = none) :
    files.filterMap find = files'.filterMap find' := by
  have inside : ∀ {files : List Path} {find : Path → Option β},
      (∀ path ∈ files, pass.names key path = false → find path = none) →
      files.filterMap find = (files.filter (pass.names key)).filterMap find := by
    intro files find outside
    rw [List.filterMap_filter]
    apply List.filterMap_congr
    intro path mem
    cases named : pass.names key path with
    | false => simp [outside path mem named]
    | true => simp
  rw [inside outside, inside outside', ← sameFiles]
  apply List.filterMap_congr
  intro path mem
  obtain ⟨listed, named⟩ := List.mem_filter.mp mem
  exact sameFound path listed named

/-- The files of a key that a pass can score give the same rows on disks that agree on them. -/
theorem rowsOfKey_eq_of_names
    (sameFiles : files.filter (pass.names key) = files'.filter (pass.names key))
    (sameContents : ∀ path ∈ files, pass.names key path = true →
      disk.read path = disk'.read path)
    (found : pass.outcomes disk files = .ok outcomes)
    (found' : pass.outcomes disk' files' = .ok outcomes') :
    rowsOfKey key (outcomes.filterMap Outcome.row?) =
      rowsOfKey key (outcomes'.filterMap Outcome.row?) := by
  have outside : ∀ {disk : Disk} {path : Path}, pass.names key path = false →
      (pass.eligibleRow? disk path).filter (fun row => row.run.key = key) = none := by
    intro disk path foreign
    rw [Option.eq_none_iff_forall_ne_some]
    intro row given
    obtain ⟨eligible, same⟩ := eligibleRow?_filter_eq_some_iff.mp given
    rw [(names_eq_true_iff key eligible.named eligible.scenario).mpr same] at foreign
    cases foreign
  rw [rowsOfKey_of_outcomes found, rowsOfKey_of_outcomes found']
  refine filterMap_eq_of_names sameFiles ?_ (fun path _ foreign => outside foreign)
    fun path _ foreign => outside foreign
  intro path listed named
  unfold eligibleRow?
  rw [sameContents path listed named]

/-- A file that is skipped for itself is listed under its own path. -/
theorem path_of_judged {contents : Except IoError Bytes} {path : Path} {file : SkippedLog}
    (judged : Judged pass path contents (.ok (.skipped file))) : file.path = path := by
  generalize outcome : Outcome.skipped file = given at judged
  cases judged with
  | otherScenario => cases outcome
  | scored => cases outcome
  | _ => cases outcome; rfl

/-- The files of a key that a pass skips for themselves are the same on disks that agree on
them. -/
theorem skipped_eq_of_names
    (sameFiles : files.filter (pass.names key) = files'.filter (pass.names key))
    (sameContents : ∀ path ∈ files, pass.names key path = true →
      disk.read path = disk'.read path)
    (found : pass.outcomes disk files = .ok outcomes)
    (found' : pass.outcomes disk' files' = .ok outcomes') :
    (outcomes.filterMap Outcome.skipped?).filter (fun file => pass.names key file.path) =
      (outcomes'.filterMap Outcome.skipped?).filter fun file => pass.names key file.path := by
  have outside : ∀ {disk : Disk} {files : List Path} {outcomes : List Outcome},
      pass.outcomes disk files = .ok outcomes →
      ∀ path ∈ files, pass.names key path = false →
        ((pass.outcome? disk path).bind Outcome.skipped?).filter
          (fun file => pass.names key file.path) = none := by
    intro disk files outcomes found path listed foreign
    obtain ⟨outcome, judged, result⟩ := exists_judged_of_outcomes found listed
    rw [judged, Option.bind_some]
    cases outcome with
    | row row => rfl
    | otherScenario => rfl
    | skipped file =>
        have own := path_of_judged result
        simp [Outcome.skipped?, own, foreign]
  rw [filterMap_outcomes found, filterMap_outcomes found', List.filter_filterMap,
    List.filter_filterMap]
  refine filterMap_eq_of_names sameFiles ?_ (outside found) (outside found')
  intro path listed named
  unfold outcome?
  rw [sameContents path listed named]

/-- The duplicates of a key among the rows that repeat a run. -/
theorem duplicates_of_names (found : pass.outcomes disk files = .ok outcomes) :
    ((separate none (sortedRows outcomes)).2.map duplicateOf).filter
        (fun file => pass.names key file.path) =
      (rowsOfKey key (separate none (sortedRows outcomes)).2).map duplicateOf := by
  rw [List.filter_map, rowsOfKey]
  congr 1
  apply List.filter_congr
  intro row mem
  have sorted : row ∈ sortedRows outcomes :=
    (separate_perm none _).subset (List.mem_append_right _ mem)
  have listed : row ∈ files.filterMap (pass.eligibleRow? disk) := by
    rw [← rows_of_outcomes found]
    exact mem_sortBy.mp sorted
  obtain ⟨path, -, given⟩ := List.mem_filterMap.mp listed
  have eligible := eligibleRow?_eq_some_iff.mp given
  have same := names_eq_true_iff key eligible.named eligible.scenario
  rw [Bool.eq_iff_iff, decide_eq_true_iff, ← same, ← eligible.source]
  rfl

/-- The row of a run depends on the files of its own key only. Two passes that list these files in
the same order and read the same from them give the same row of the key, or both none, and skip the
same of these files for the same causes, whatever else there is. -/
theorem collectFiles_local {σ σ' : Type} (pass : Pass) (key : Run.Key)
    (files files' : List Path) (disk disk' : Disk)
    (sameFiles : files.filter (pass.names key) = files'.filter (pass.names key))
    (sameContents : ∀ path ∈ files, pass.names key path = true →
      disk.read path = disk'.read path)
    (onProgress : Progress → σ → σ) (onComplete : PassSummary → σ → σ) (state : σ)
    (onProgress' : Progress → σ' → σ') (onComplete' : PassSummary → σ' → σ') (state' : σ')
    (output output' : Collection) (heard : σ) (heard' : σ') (after after' : Disk)
    (done : onDisk (pass.collectFiles (Reporter.observing onProgress onComplete) files) state disk =
      ⟨.ok output, heard, after⟩)
    (done' : onDisk (pass.collectFiles (Reporter.observing onProgress' onComplete') files') state'
      disk' = ⟨.ok output', heard', after'⟩) :
    (output.rows.filter fun row => row.run.key = key) =
        (output'.rows.filter fun row => row.run.key = key) ∧
      (output.skipped.filter fun file => pass.names key file.path) =
        output'.skipped.filter fun file => pass.names key file.path := by
  obtain ⟨-, outcomes, found, rfl⟩ := results_of_onDisk_collectFiles done
  obtain ⟨-, outcomes', found', rfl⟩ := results_of_onDisk_collectFiles done'
  have sameRows := rowsOfKey_eq_of_names sameFiles sameContents found found'
  have sameSkipped := skipped_eq_of_names sameFiles sameContents found found'
  constructor
  · calc
      rowsOfKey key (pass.results outcomes).rows
        = (sortBy compareRows (rowsOfKey key (outcomes.filterMap Outcome.row?))).take 1 :=
          rowsOfKey_results pass key outcomes
      _ = (sortBy compareRows (rowsOfKey key (outcomes'.filterMap Outcome.row?))).take 1 := by
          rw [sameRows]
      _ = rowsOfKey key (pass.results outcomes').rows := (rowsOfKey_results pass key outcomes').symm
  · have repeated : rowsOfKey key (separate none (sortedRows outcomes)).2 =
        rowsOfKey key (separate none (sortedRows outcomes')).2 := by
      rw [rowsOfKey_repeated, rowsOfKey_repeated, sameRows]
    rw [skipped_results, skipped_results, filter_sortBy, filter_sortBy, List.filter_append,
      List.filter_append, duplicates_of_names found, duplicates_of_names found', sameSkipped,
      repeated]

/-- A log of another run beside the log of a baseline run changes nothing for the latter, neither on
the disk nor in the list of files. -/
theorem collectFiles_local_baseline :
    let key : Run.Key := ⟨"baseline", .single, "none", "single.429.mcf"⟩
    let log := Path.ofString "baseline.single.429.mcf.out"
    let other := Path.ofString "baseline.single.470.lbm.out"
    let pass : Pass := ⟨{}, Catalog.empty.withTrace "429.mcf" 1.0⟩
    let disk : Disk := ⟨.directory [(log.bytes, .file [])]⟩
    let disk' : Disk := ⟨.directory [(other.bytes, .file [0x0A]), (log.bytes, .file [])]⟩
    let reporter := Reporter.observing (fun _ (heard : Unit) => heard) fun _ heard => heard
    ∃ output output',
      onDisk (pass.collectFiles reporter [log, log]) () disk = ⟨.ok output, (), disk⟩ ∧
      onDisk (pass.collectFiles reporter [log, other, log]) () disk' = ⟨.ok output', (), disk'⟩ ∧
      (output.rows.filter fun row => row.run.key = key) =
        (output'.rows.filter fun row => row.run.key = key) ∧
      (output.skipped.filter fun file => pass.names key file.path) =
        output'.skipped.filter fun file => pass.names key file.path := by
  intro key log other pass disk disk' reporter
  have fits : fitsInMemory numberSize pass.config.collection.coreCount.toNat = true := by decide
  obtain ⟨output, heard, done⟩ := exists_onDisk_collectFiles pass
    (fun _ (heard : Unit) => heard) (fun _ heard => heard) [log, log] () disk fits
  obtain ⟨output', heard', done'⟩ := exists_onDisk_collectFiles pass
    (fun _ (heard : Unit) => heard) (fun _ heard => heard) [log, other, log] () disk' fits
  have foreign : pass.names key other = false := by decide +kernel
  have sameFiles : [log, log].filter (pass.names key) = [log, other, log].filter (pass.names key) := by
    simp [List.filter_cons, foreign]
  have sameContents : ∀ path ∈ [log, log], pass.names key path = true →
      disk.read path = disk'.read path := by
    intro path mem _
    have path_eq : path = log := by simpa using mem
    rw [path_eq]
    rfl
  exact ⟨output, output', done, done', collectFiles_local pass key [log, log] [log, other, log]
    disk disk' sameFiles sameContents _ _ () _ _ () output output' heard heard' disk disk' done done'⟩

end Pass

end SpeedupStudy
