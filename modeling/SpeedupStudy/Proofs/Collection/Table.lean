/-
# The table of a pass

Every row of a pass has a speedup for each core of the machine and none with a minus sign, so what
a pass finds can be read back from its table and is normalized to the same values from there.
-/

import SpeedupStudy.Proofs.Collection.Rows
import SpeedupStudy.Proofs.Table

namespace SpeedupStudy

namespace Pass

variable {pass : Pass} {disk : Disk} {path : Path} {row : Row}

/-- A scored file has no speedup with a minus sign. -/
theorem Eligible.unsigned_perCore (eligible : Eligible pass disk path row) :
    ∀ x ∈ row.speedup.perCore, Binary64.Unsigned x := by
  obtain ⟨solo, log, -, -, scored⟩ := eligible.scored
  intro x mem
  rw [scored] at mem
  exact Speedup.unsigned_of_mem_ofLog mem

variable {files : List Path} {outcomes : List Outcome}

/-- Every row of a pass has a speedup for each core of the machine. -/
theorem length_perCore_of_mem_rows (found : pass.outcomes disk files = .ok outcomes)
    (mem : row ∈ (pass.results outcomes).rows) :
    row.speedup.perCore.length = (pass.results outcomes).coreCount := by
  obtain ⟨-, -, -, eligible, -⟩ := exists_first_of_mem_rows found mem
  exact eligible.length_perCore

theorem scored_results (found : pass.outcomes disk files = .ok outcomes)
    (hasCores : pass.config.collection.coreCount ≠ 0) : (pass.results outcomes).Scored := by
  refine ⟨Nat.pos_of_ne_zero ?_, ?_, ?_⟩
  · intro none
    exact hasCores (UInt64.toNat.inj none)
  · exact fun row mem => length_perCore_of_mem_rows found mem
  · intro row mem
    obtain ⟨-, -, -, eligible, -⟩ := exists_first_of_mem_rows found mem
    exact eligible.unsigned_perCore

end Pass

namespace ResultTable

open Binary64

/-- The table of a machine with cores keeps its rows.
* In the form with a column for each core there is no text exactly if memory cannot list the columns,
  and a text breaks off exactly if some row has not one speedup for each core. In the form with sums
  there always is a text, and it never breaks off.
* A text that does not break off is read back as one row for each row, in their order, with the fields
  of its run and the sum of its numbers taken from plus zero.
* That sum is the same in both forms, and the same as in memory, up to the sign of a zero.
* The rows that a pass gives have one speedup for each core. -/
theorem writtenTable_keeps_rows :
    (∀ output : Collection, 0 < output.coreCount →
      (render? .perCore output = .error .capacityOverflow ↔
        fitsInMemory textSize (keyColumns.length + output.coreCount) = false) ∧
      (∀ text broken, render? .perCore output = .ok (text, broken) →
        (broken ≠ none ↔ ∃ row ∈ output.rows, row.speedup.perCore.length ≠ output.coreCount)) ∧
      (∃ text, render? .sum output = .ok (text, none)) ∧
      ∀ columns text, render? columns output = .ok (text, none) →
        read text = .ok (output.rows.map (readBack columns))) ∧
    (∀ columns columns' row, SameUpToZero (readBack columns row).sum (readBack columns' row).sum ∧
      SameUpToZero (readBack columns row).sum (Measurement.ofRow row).sum) ∧
    ∀ (σ : Type) (pass : Pass) (onProgress : Progress → σ → σ) (onComplete : PassSummary → σ → σ)
      (files : List Path) (state heard : σ) (disk after : Disk) (output : Collection),
      onDisk (pass.collectFiles (Reporter.observing onProgress onComplete) files) state disk =
        ⟨.ok output, heard, after⟩ →
      ∀ row ∈ output.rows, row.speedup.perCore.length = output.coreCount := by
  refine ⟨fun output hasCores => ⟨?_, ?_, ?_, ?_⟩, fun columns columns' row => ⟨?_, ?_⟩, ?_⟩
  · rw [render?_eq_error_iff]
    rfl
  · intro text broken rendered
    have breaks := render_snd_eq_none_iff .perCore output
    rw [← eq_render_of_render? rendered] at breaks
    rw [Ne, breaks]
    simp [Uniform, values, valueCount]
  · have whole := (render_snd_eq_none_iff .sum output).mpr (uniform_sum output)
    exact ⟨(render .sum output).1, by rw [render?_sum, ← whole]⟩
  · intro columns text rendered
    have rendered := eq_render_of_render? rendered
    have uniform : Uniform columns output := by
      rw [← render_snd_eq_none_iff, ← rendered]
    rw [← read_render_of_uniform hasCores uniform, ← rendered]
  · exact (sameUpToZero_readSum columns row).trans (sameUpToZero_readSum columns' row).symm
  · exact sameUpToZero_readSum columns row
  · intro σ pass onProgress onComplete files state heard disk after output done row mem
    obtain ⟨-, outcomes, found, rfl⟩ := Pass.results_of_onDisk_collectFiles done
    exact Pass.length_perCore_of_mem_rows found mem

/-- A row whose fields need quotes is read back from the form with a column for each core, where the
minus zero before its other number makes no difference. A pass gives rows for such a table. -/
theorem writtenTable_keeps_rows_quoted :
    let run : Run := ⟨none, "a\"b", "1,5", .rate, "rate.x\ny"⟩
    let output : Collection :=
      { rows := [⟨run, ⟨[-0.0, 1.5], .valid⟩, Path.ofString "x.out"⟩], coreCount := 2 }
    let log := Path.ofString "baseline.single.429.mcf.out"
    let pass : Pass := ⟨{}, Catalog.empty.withTrace "429.mcf" 1.0⟩
    let disk : Disk := ⟨.directory [(log.bytes, .file [])]⟩
    let reporter := Reporter.observing (fun _ (heard : Unit) => heard) fun _ heard => heard
    (∃ text, render? .perCore output = .ok (text, none) ∧
      read text = .ok [⟨"a\"b", .rate, "1,5", "rate.x\ny", 1.5⟩]) ∧
    ∃ collected, onDisk (pass.collectFiles reporter [log]) () disk = ⟨.ok collected, (), disk⟩ ∧
      ∀ row ∈ collected.rows, row.speedup.perCore.length = collected.coreCount := by
  intro run output log pass disk reporter
  obtain ⟨written, -, collected⟩ := writtenTable_keeps_rows
  obtain ⟨-, -, -, readBack⟩ := written output (by decide)
  have whole : (render .perCore output).2 = none :=
    (render_snd_eq_none_iff .perCore output).mpr fun row mem => by
      rw [List.mem_singleton.mp mem]
      rfl
  have rendered : render? .perCore output = .ok ((render .perCore output).1, none) := by
    rw [← whole]
    exact if_pos (by decide)
  refine ⟨⟨_, rendered, (readBack .perCore _ rendered).trans rfl⟩, ?_⟩
  obtain ⟨output', heard, done⟩ := Pass.exists_onDisk_collectFiles pass
    (fun _ (heard : Unit) => heard) (fun _ heard => heard) [log] () disk (by decide)
  exact ⟨output', done, collected Unit pass _ _ [log] () heard disk disk output' done⟩

/-- The table of a machine with `2 ^ 62` cores has no text that could break off, although a row has
fewer speedups. -/
theorem writtenTable_unlisted :
    let run : Run := ⟨none, "baseline", "none", .rate, "rate.a"⟩
    let output : Collection :=
      { rows := [⟨run, ⟨[1.0], .valid⟩, Path.ofString "x.out"⟩], coreCount := 0x4000000000000000 }
    ¬ ((∃ text mismatch, render? .perCore output = .ok (text, some mismatch)) ↔
      ∃ row ∈ output.rows, row.speedup.perCore.length ≠ output.coreCount) := by
  intro run output breaks
  obtain ⟨text, mismatch, rendered⟩ := breaks.mpr ⟨_, List.mem_singleton_self _, by decide⟩
  have unlisted : render? .perCore output = .error .capacityOverflow :=
    (render?_eq_error_iff .perCore output).mpr (by decide)
  rw [unlisted] at rendered
  cases rendered

end ResultTable

end SpeedupStudy
