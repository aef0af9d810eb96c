/-
# Catalogs are read back from their files

Every catalog has a TOML text, and the text is read back as the catalog, whatever its names are and
however small or large its rates. So a usable catalog that was saved is loaded again, unless its
file could not be written.
-/

import SpeedupStudy.Catalog.File
import SpeedupStudy.Proofs.FileSystem.Text
import SpeedupStudy.Proofs.NameMap
import SpeedupStudy.Proofs.Toml.RoundTrip

namespace SpeedupStudy

namespace Catalog

variable {σ : Type}

/-- A catalog has two tables and nothing else. -/
theorem innerTables_toFields (c : Catalog) : Toml.innerTables c.toFields =
    [("traces", c.traces.entries.map fun (name, ipc) => (name, .real ipc)),
      ("mixes", c.mixes.entries.map fun (name, traces) => (name, .list (traces.map .text)))] :=
  rfl

/-- The values in the tables of a catalog are numbers and lists of texts. -/
theorem mem_innerTables_toFields {c : Catalog} {part : String × List (String × Value)}
    (mem : part ∈ Toml.innerTables c.toFields) {field : String × Value} (inside : field ∈ part.2) :
    (∃ ipc, field.2 = .real ipc) ∨ ∃ traces : List String, field.2 = .list (traces.map .text) := by
  rw [innerTables_toFields, List.mem_cons, List.mem_singleton] at mem
  rcases mem with rfl | rfl
  · obtain ⟨⟨name, ipc⟩, -, rfl⟩ := List.mem_map.mp inside
    exact .inl ⟨ipc, rfl⟩
  · obtain ⟨⟨name, traces⟩, -, rfl⟩ := List.mem_map.mp inside
    exact .inr ⟨traces, rfl⟩

/-- Every catalog can be written. -/
theorem exists_toToml? (c : Catalog) : ∃ text, c.toToml? = some text := by
  rw [← Option.isSome_iff_exists, toToml?, Toml.isSome_render?]
  refine ⟨nofun, fun part mem field inside => ?_⟩
  rcases mem_innerTables_toFields mem inside with ⟨ipc, value⟩ | ⟨traces, value⟩
  · rw [value]
    rfl
  · simp [value, Toml.valueText?, isSome_mapM, Toml.scalarText?]

theorem undated_toFields (c : Catalog) : Toml.UndatedFields c.toFields where
  plain := nofun
  inner := by
    intro part mem field inside
    rcases mem_innerTables_toFields mem inside with ⟨ipc, value⟩ | ⟨traces, value⟩
    · simp [value, Toml.Undated]
    · simp [value, Toml.Undated]

theorem distinct_toFields (c : Catalog) : Toml.DistinctNames c.toFields where
  outer := by
    have names : (Toml.arranged c.toFields).map (·.1) = ["traces", "mixes"] := rfl
    rw [names]
    decide
  inner := by
    intro part mem
    rw [innerTables_toFields, List.mem_cons, List.mem_singleton] at mem
    rcases mem with rfl | rfl
    · simpa [Function.comp_def] using c.traces.nodup_names
    · simpa [Function.comp_def] using c.mixes.nodup_names

/-- The document of a catalog is read as the catalog, in any format. -/
theorem ofValue?_toFields (format : DocumentFormat) (c : Catalog) :
    ofValue? format (.table c.toFields) = some c := by
  let traces := Value.table (c.traces.entries.map fun (name, ipc) => (name, .real ipc))
  let mixes := Value.table (c.mixes.entries.map fun (name, assigned) =>
    (name, .list (assigned.map .text)))
  have found : (Value.table c.toFields).fields? format ["traces", "mixes"] =
      some ⟨false, [some traces, some mixes]⟩ :=
    Value.fields?_tableOfPresent format [("traces", some traces), ("mixes", some mixes)] (by simp)
  have tracesRead : traces.table? Value.float? = some c.traces.entries :=
    Value.table?_map .real (fun _ => rfl) c.traces.entries
  have mixesRead : mixes.table? (Value.list? Value.text?) = some c.mixes.entries :=
    Value.table?_map (fun assigned => .list (assigned.map .text))
      (Value.list?_map .text fun _ => rfl) c.mixes.entries
  simp [ofValue?, found, Fields.required?, Fields.default?, Fields.get, tracesRead, mixesRead,
    NameMap.ofList_entries]

/-- The text of a catalog is read as the catalog. -/
theorem ofToml?_of_toToml? {c : Catalog} {text : String} (written : c.toToml? = some text) :
    ofToml? text = some c := by
  have parsed := Toml.parse?_render written c.undated_toFields c.distinct_toFields
  rw [ofToml?, parsed, Option.bind_some]
  exact ofValue?_toFields Toml.format c

/-- Loading reads a file and leaves the disk alone, and only a usable catalog is loaded. -/
theorem exists_onDisk_load (path : Path) (state : σ) (disk : Disk) :
    ∃ result : Except Failure Catalog,
      onDisk (load path : Attempt (StateT σ DiskM) Catalog) state disk = ⟨result, state, disk⟩ ∧
      ∀ c, result = .ok c → c.problem? = none := by
  rw [load, onDisk_bind, onDisk_readText]
  cases disk.readText path with
  | error e => exact ⟨.error (.io e), rfl, nofun⟩
  | ok text =>
      rw [Except.mapError, Ended.andThen_ok, onDisk_bind]
      cases ofToml? text with
      | none => exact ⟨.error .toml, rfl, nofun⟩
      | some c =>
          rw [onDisk_require_some, Ended.andThen_ok, checked]
          cases problem : c.problem? with
          | some fault => exact ⟨.error (.catalog fault), rfl, nofun⟩
          | none =>
              refine ⟨.ok c, rfl, fun c' same => ?_⟩
              cases same
              exact problem

theorem keeps_load (path : Path) : Keeps (load path : Attempt (StateT σ DiskM) Catalog) := by
  intro state disk
  obtain ⟨result, loaded, -⟩ := exists_onDisk_load path state disk
  rw [loaded]

theorem keeps_checked (c : Catalog) : Keeps (c.checked : Attempt (StateT σ DiskM) Catalog) := by
  intro state disk
  rw [checked]
  cases c.problem? <;> rfl

/-- A usable catalog is loaded from a file that holds its text. -/
theorem onDisk_load_of_read {c : Catalog} (usable : c.problem? = none) {text : String}
    (written : c.toToml? = some text) {disk : Disk} {path : Path}
    (found : disk.readText path = .ok text) (state : σ) :
    onDisk (load path : Attempt (StateT σ DiskM) Catalog) state disk = ⟨.ok c, state, disk⟩ := by
  rw [load, onDisk_bind, onDisk_readText, found, Except.mapError, Ended.andThen_ok, onDisk_bind,
    ofToml?_of_toToml? written, onDisk_require_some, Ended.andThen_ok, checked, usable]
  rfl

/-- Saving a catalog writes its text. -/
theorem save_eq {c : Catalog} {text : String} (written : c.toToml? = some text) (path : Path) :
    (c.save path : Attempt (StateT σ DiskM) Unit) = Attempt.files (Files.writeText path text) := by
  rw [save, written]
  rfl

/-- Every catalog has a text, and a usable one is kept by a file with that text, bit for bit. -/
theorem load_saved (c : Catalog) (usable : c.problem? = none) (path : Path) :
    ∃ text, c.toToml? = some text ∧
      KeptInFile path text c (c.save path : Attempt (StateT σ DiskM) Unit) (load path) := by
  obtain ⟨text, written⟩ := c.exists_toToml?
  exact ⟨text, written, keptInFile_of_read (save_eq written path) fun disk state found =>
    onDisk_load_of_read usable written found state⟩

/-- A catalog with unusual names and with the smallest and the largest rate. -/
def oddCatalog : Catalog :=
  ⟨.ofList [("a.\"b\"\n", 5e-324), ("ü'\t\\", 1.7976931348623157e308)],
    .ofList [("", ["ü'\t\\"]), ("two lines\n'''", ["a.\"b\"\n", "ü'\t\\", "a.\"b\"\n"])]⟩

/-- A catalog of unusual names is loaded again from a file in an empty directory. -/
theorem load_saved_odd_names :
    oddCatalog.problem? = none ∧
    ∃ after,
      onDisk (oddCatalog.save (Path.ofString "c.toml") : Attempt (StateT Unit DiskM) Unit) ()
        ⟨.directory []⟩ = ⟨.ok (), (), after⟩ ∧
      onDisk (load (Path.ofString "c.toml") : Attempt (StateT Unit DiskM) Catalog) () after =
        ⟨.ok oddCatalog, (), after⟩ := by
  have usable : oddCatalog.problem? = none := by decide +kernel
  obtain ⟨text, -, kept⟩ := load_saved (σ := Unit) oddCatalog usable (Path.ofString "c.toml")
  exact ⟨usable, ⟨.directory [(Utf8.encode "c.toml", .file (Utf8.encode text))]⟩, kept [] ()⟩

end Catalog

end SpeedupStudy
