/-
# The order of listing does not matter

A pass sorts its rows by run and its skipped files by path, and of several rows for one run it keeps
the first that was listed. So the order of listing could show where two files have one run, or two
skipped files one place in the order of paths. Neither happens among files with different names: a
run has only one name, the short form of a baseline precedes the long one, and paths that the order
does not tell apart end in one name. The results of a pass over such files are the same for every
order of listing, and so is the event that ends it.
-/

import SpeedupStudy.Proofs.Collection.Accounting
import SpeedupStudy.Proofs.Path

namespace SpeedupStudy

theorem Utf8.eq_encode_of_decode? {bytes : Bytes} {text : String}
    (decoded : decode? bytes = some text) : bytes = encode text := by
  obtain ⟨_, valid⟩ := Option.dite_none_right_eq_some.mp decoded
  cases valid
  rfl

/-- Paths that the order of paths does not tell apart end in one name. -/
theorem Path.fileName?_eq_of_compare {a b : Path} (same : a.compare b = .eq) :
    a.fileName? = b.fileName? := by
  rw [fileName?, fileName?, compare_eq_eq_iff.mp same]

/-- The last component of a path that names a run is the file name of the run. -/
theorem Run.fileName?_of_ofPath {path : Path} {run : Run} (named : Run.ofPath path = .ok run) :
    path.fileName? = some (Utf8.encode run.fileName) := by
  unfold Run.ofPath at named
  split at named
  · cases named
  · next name found =>
      obtain ⟨bytes, last, decoded⟩ := Option.bind_eq_some_iff.mp found
      rw [last, Utf8.eq_encode_of_decode? decoded, ← (ofFileName_eq_ok_iff.mp named).2]

namespace Pass

variable {pass : Pass} {disk : Disk} {files files' : List Path} {outcomes outcomes' : List Outcome}

/-- A pass ends early exactly if one of its files ends it. -/
theorem outcomes_eq_error_iff {event : Abort} :
    pass.outcomes disk files = .error event ↔
      event = .capacityOverflow ∧ ∃ path ∈ files, pass.outcome? disk path = none := by
  induction files with
  | nil => simp [Pass.outcomes]
  | cons path rest ih =>
      have judged := judged_outcome pass path (disk.read path)
      cases result : pass.outcome path (disk.read path) with
      | error first =>
          rw [result] at judged
          have vast : first = .capacityOverflow := by cases judged <;> rfl
          have ended : pass.outcome? disk path = none := by rw [outcome?, result]; rfl
          simp [Pass.outcomes, result, vast, ended, eq_comm]
      | ok outcome =>
          have found : pass.outcome? disk path = some outcome := by rw [outcome?, result]; rfl
          have onward : pass.outcomes disk (path :: rest) = .error event ↔
              pass.outcomes disk rest = .error event := by
            simp only [Pass.outcomes, result]
            cases pass.outcomes disk rest <;> simp [Except.map]
          rw [onward, ih]
          simp [found]

/-- Scored files with different names have different runs. -/
theorem rows_apart (distinct : (files.map Path.fileName?).Nodup)
    (found : pass.outcomes disk files = .ok outcomes) :
    ∀ a ∈ outcomes.filterMap Outcome.row?, ∀ b ∈ outcomes.filterMap Outcome.row?,
      compareRows a b = .eq → a = b := by
  have eligible : ∀ row ∈ outcomes.filterMap Outcome.row?,
      row.source ∈ files ∧ pass.eligibleRow? disk row.source = some row := by
    intro row mem
    rw [rows_of_outcomes found] at mem
    obtain ⟨path, listed, given⟩ := List.mem_filterMap.mp mem
    obtain rfl := (eligibleRow?_eq_some_iff.mp given).source
    exact ⟨listed, given⟩
  intro a memA b memB same
  obtain ⟨listedA, givenA⟩ := eligible a memA
  obtain ⟨listedB, givenB⟩ := eligible b memB
  have run : a.run = b.run := Run.eq_of_compare_eq same
  have names : a.source.fileName? = b.source.fileName? := by
    rw [Run.fileName?_of_ofPath (eligibleRow?_eq_some_iff.mp givenA).named,
      Run.fileName?_of_ofPath (eligibleRow?_eq_some_iff.mp givenB).named, run]
  have source : a.source = b.source := List.inj_on_of_nodup_map distinct listedA listedB names
  rw [source, givenB] at givenA
  exact (Option.some.inj givenA).symm

/-- Skipped files with different names have different places in the order of paths. -/
theorem skipped_apart (distinct : (files.map Path.fileName?).Nodup)
    (found : pass.outcomes disk files = .ok outcomes) :
    ∀ a ∈ (pass.results outcomes).skipped, ∀ b ∈ (pass.results outcomes).skipped,
      a.path.compare b.path = .eq → a = b := by
  have parts := perm_sources_skipped found
  have once : ((pass.results outcomes).skipped.map SkippedLog.path).Nodup :=
    (List.nodup_append'.mp (parts.nodup_iff.mp (distinct.of_map.filter _))).2.1
  have listed : ∀ file ∈ (pass.results outcomes).skipped, file.path ∈ files := fun file mem =>
    List.mem_of_mem_filter
      (parts.symm.subset (List.mem_append_right _ (List.mem_map_of_mem mem)))
  intro a memA b memB same
  have path : a.path = b.path := List.inj_on_of_nodup_map distinct (listed a memA) (listed b memB)
    (Path.fileName?_eq_of_compare same)
  exact List.inj_on_of_nodup_map once memA memB path

/-- Two orders of listing files with different names give the same results. -/
theorem results_eq_of_perm (perm : files.Perm files')
    (distinct : (files.map Path.fileName?).Nodup)
    (found : pass.outcomes disk files = .ok outcomes)
    (found' : pass.outcomes disk files' = .ok outcomes') :
    pass.results outcomes = pass.results outcomes' := by
  have sorted : sortedRows outcomes = sortedRows outcomes' := by
    refine sortBy_eq_of_perm ?_ (rows_apart distinct found)
    rw [rows_of_outcomes found, rows_of_outcomes found']
    exact perm.filterMap _
  have rows : (pass.results outcomes).rows = (pass.results outcomes').rows := by
    rw [rows_results, rows_results, sorted]
  have skipped : (pass.results outcomes).skipped = (pass.results outcomes').skipped := by
    have apart := skipped_apart distinct found
    rw [skipped_results] at apart
    rw [skipped_results, skipped_results]
    refine sortBy_eq_of_perm ?_ fun a memA b memB =>
      apart a (mem_sortBy.mpr memA) b (mem_sortBy.mpr memB)
    rw [sorted, filterMap_outcomes found, filterMap_outcomes found']
    exact (perm.filterMap _).append_right _
  have length : outcomes.length = outcomes'.length := by
    have lengths := congrArg List.length (map_outcome?_of_outcomes found)
    have lengths' := congrArg List.length (map_outcome?_of_outcomes found')
    simp only [List.length_map] at lengths lengths'
    rw [← lengths, ← lengths', perm.length_eq]
  have others : (Tally.ofList outcomes).otherScenario = (Tally.ofList outcomes').otherScenario := by
    rw [(perm_own_files found).2, (perm_own_files found').2, perm.countP_eq]
  have shape (outcomes : List Outcome) : pass.results outcomes =
      { rows := (pass.results outcomes).rows
        skipped := (pass.results outcomes).skipped
        summary := { pass.summarize outcomes.length (Tally.ofList outcomes).otherScenario
            (pass.results outcomes).rows (pass.results outcomes).skipped with
          threads := (pass.config.execution.threads.map UInt64.toNat).getD 0 }
        coreCount := pass.config.collection.machine.coreCount } := rfl
  rw [shape outcomes, shape outcomes', rows, skipped, length, others]

/-- Passes over two orders of listing files with different names end in the same way: with the same
rows, skipped files and counts, or with the same event. -/
theorem map_results_eq_of_perm (perm : files.Perm files')
    (distinct : (files.map Path.fileName?).Nodup) :
    (pass.outcomes disk files).map pass.results = (pass.outcomes disk files').map pass.results := by
  have ends : ∀ event, pass.outcomes disk files = .error event ↔
      pass.outcomes disk files' = .error event := by
    intro event
    simp only [outcomes_eq_error_iff, perm.mem_iff]
  cases found : pass.outcomes disk files with
  | error event => rw [(ends event).mp found]
  | ok outcomes =>
      cases found' : pass.outcomes disk files' with
      | error event => rw [(ends event).mpr found'] at found; cases found
      | ok outcomes' =>
          exact congrArg Except.ok (results_eq_of_perm perm distinct found found')

/-- A pass over files with different names gives the same results for every order in which they are
listed, or is ended by the same event, whoever hears of its progress, and it leaves the disk as it
is. -/
theorem collectFiles_listing_order {σ σ' : Type} (pass : Pass) (files files' : List Path)
    (disk : Disk) (perm : files.Perm files') (distinct : (files.map Path.fileName?).Nodup)
    (onProgress : Progress → σ → σ) (onComplete : PassSummary → σ → σ) (state : σ)
    (onProgress' : Progress → σ' → σ') (onComplete' : PassSummary → σ' → σ') (state' : σ') :
    let ended := onDisk (pass.collectFiles (Reporter.observing onProgress onComplete) files) state
      disk
    let ended' := onDisk (pass.collectFiles (Reporter.observing onProgress' onComplete') files')
      state' disk
    ended.result = ended'.result ∧ ended.disk = disk ∧ ended'.disk = disk := by
  obtain ⟨heard, done⟩ := onDisk_collectFiles pass onProgress onComplete files state disk
  obtain ⟨heard', done'⟩ := onDisk_collectFiles pass onProgress' onComplete' files' state' disk
  intro ended ended'
  rw [show ended = _ from done, show ended' = _ from done']
  exact ⟨by rw [map_results_eq_of_perm perm distinct], rfl, rfl⟩

/-- The two forms of the name of a baseline run and a file that names no run may be listed in any
order. -/
theorem collectFiles_listing_order_baseline :
    let short := Path.ofString "x/baseline.single.429.mcf.out"
    let long := Path.ofString "benign.baseline.none.single.429.mcf.out"
    let other := Path.ofString "notes"
    let pass : Pass := ⟨{}, Catalog.empty.withTrace "429.mcf" 1.0⟩
    let disk : Disk := ⟨.directory [(long.bytes, .file [])]⟩
    let reporter := Reporter.observing (fun _ (heard : Unit) => heard) fun _ heard => heard
    ([short, long, other].map Path.fileName?).Nodup ∧
      [short, long, other].Perm [other, long, short] ∧
      ∃ output,
        onDisk (pass.collectFiles reporter [short, long, other]) () disk =
          ⟨.ok output, (), disk⟩ ∧
        onDisk (pass.collectFiles reporter [other, long, short]) () disk =
          ⟨.ok output, (), disk⟩ := by
  intro short long other pass disk reporter
  have distinct : ([short, long, other].map Path.fileName?).Nodup := by decide +kernel
  have perm : [short, long, other].Perm [other, long, short] :=
    (List.reverse_perm [short, long, other]).symm
  obtain ⟨output, heard, done⟩ := exists_onDisk_collectFiles pass
    (fun _ (heard : Unit) => heard) (fun _ heard => heard) [short, long, other] () disk (by decide)
  obtain ⟨same, -, kept⟩ := collectFiles_listing_order pass [short, long, other]
    [other, long, short] disk perm distinct (fun _ (heard : Unit) => heard) (fun _ heard => heard) ()
    (fun _ (heard : Unit) => heard) (fun _ heard => heard) ()
  refine ⟨distinct, perm, output, done, ?_⟩
  rw [show onDisk _ () disk = _ from done] at same
  generalize onDisk _ () disk = ended at same kept ⊢
  obtain ⟨result, state, after⟩ := ended
  have result : result = .ok output := same.symm
  have kept : after = disk := kept
  rw [result, kept]

end Pass

end SpeedupStudy
