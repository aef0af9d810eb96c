/-
# Configurations are read back from their files

A configuration has a JSON text, and a TOML text if its counts have a place there. Each text is read
back as the configuration, whatever is present and whatever its texts hold. So a usable
configuration that was saved is loaded again, and one that TOML cannot hold leaves the disk alone.
-/

import SpeedupStudy.Config.File
import SpeedupStudy.Proofs.FileSystem.Text
import SpeedupStudy.Proofs.Json.RoundTrip
import SpeedupStudy.Proofs.Toml.RoundTrip

namespace SpeedupStudy

/-- An optional part is read as it was written, present or absent. -/
theorem Fields.optional?_map {α : Type} {fields : Fields} {index : Nat} {part : Option α}
    {write : α → Value} {read? : Value → Option α} (named : fields.positional = false)
    (found : fields.get index = part.map write) (inverse : ∀ a, read? (write a) = some a)
    (notNull : ∀ a, write a ≠ .null) : fields.optional? index read? = some part := by
  rw [Fields.optional?, found]
  cases part with
  | none => simp [named]
  | some a =>
      rw [Option.map_some]
      split
      · next absent => cases absent
      · next null => exact absurd (Option.some.inj null) (notNull a)
      · next value _ same =>
          cases same
          rw [inverse]
          rfl

/-- A structure has a place in JSON if each present field has. -/
theorem Json.kept_tableOfPresent {fields : List (String × Option Value)}
    (inside : ∀ field ∈ fields, ∀ value ∈ field.2, Kept value) :
    Kept (Value.tableOfPresent fields) := by
  refine .table fun field mem => ?_
  obtain ⟨⟨name, value⟩, mem', found⟩ := List.mem_filterMap.mp mem
  obtain ⟨value, rfl, rfl⟩ := Option.map_eq_some_iff.mp found
  exact inside _ mem' value rfl

namespace CollectionConfig

/-- The collection settings under their names. -/
def fields (c : CollectionConfig) : List (String × Option Value) :=
  [("core_count", some (.word c.coreCount)),
   ("aggressor_cores", some (.word c.aggressorCores)),
   ("sim_type", some (.text c.scenario.name)),
   ("layout", some (.text c.columns.name)),
   ("fault_marker", some (.text c.faultMarker))]

theorem toValue_eq (c : CollectionConfig) : c.toValue = Value.tableOfPresent c.fields :=
  rfl

/-- Collection settings are read as they are written. -/
theorem ofValue?_toValue (format : DocumentFormat) (c : CollectionConfig) :
    ofValue? format c.toValue = some c := by
  have found : c.toValue.fields? format fieldNames = some ⟨false, c.fields.map (·.2)⟩ :=
    Value.fields?_tableOfPresent format c.fields (by simp [fields])
  simp [ofValue?, found, fields, Fields.required?, Fields.default?, Fields.get, Value.choice?_text,
    Value.text?]

end CollectionConfig

namespace ExecutionConfig

/-- The execution settings under their names. -/
def fields (c : ExecutionConfig) : List (String × Option Value) :=
  [("threads", c.threads.map .word), ("report_progress", some (.bool c.reportProgress))]

theorem toValue_eq (c : ExecutionConfig) : c.toValue = Value.tableOfPresent c.fields :=
  rfl

/-- Execution settings are read as they are written, with or without a number of threads. -/
theorem ofValue?_toValue (format : DocumentFormat) (c : ExecutionConfig) :
    ofValue? format c.toValue = some c := by
  have found : c.toValue.fields? format ["threads", "report_progress"] =
      some ⟨false, c.fields.map (·.2)⟩ :=
    Value.fields?_tableOfPresent format c.fields (by simp [fields])
  have threads : (Fields.mk false (c.fields.map (·.2))).optional? 0 Value.word? = some c.threads :=
    Fields.optional?_map rfl rfl Value.word?_word nofun
  have progress : (Fields.mk false (c.fields.map (·.2))).default? 1 Value.bool? false =
      some c.reportProgress :=
    rfl
  simp [ofValue?, found, threads, progress]

end ExecutionConfig

namespace Experiment

/-- The metadata of an experiment under their names. -/
def fields (m : Experiment) : List (String × Option Value) :=
  [("name", some (.text m.name)),
   ("description", m.description.map .text),
   ("tags", m.tags.map fun tags => .list (tags.map .text))]

theorem toValue_eq (m : Experiment) : m.toValue = Value.tableOfPresent m.fields :=
  rfl

/-- Metadata are read as they are written. No tags are told from an empty list of tags. -/
theorem ofValue?_toValue (format : DocumentFormat) (m : Experiment) :
    ofValue? format m.toValue = some m := by
  have found : m.toValue.fields? format ["name", "description", "tags"] =
      some ⟨false, m.fields.map (·.2)⟩ :=
    Value.fields?_tableOfPresent format m.fields (by simp [fields])
  have name : (Fields.mk false (m.fields.map (·.2))).required? 0 Value.text? = some m.name := rfl
  have description :
      (Fields.mk false (m.fields.map (·.2))).optional? 1 Value.text? = some m.description :=
    Fields.optional?_map rfl rfl (fun _ => rfl) nofun
  have tags :
      (Fields.mk false (m.fields.map (·.2))).optional? 2 (Value.list? Value.text?) = some m.tags :=
    Fields.optional?_map rfl rfl (Value.list?_map .text fun _ => rfl) nofun
  simp [ofValue?, found, name, description, tags]

end Experiment

namespace Config

/-- The parts of a configuration under their names. -/
def fields (c : Config) : List (String × Option Value) :=
  [("catalog_path", c.catalogPath.map Value.text),
   ("collect", some c.collection.toValue),
   ("batch", some c.execution.toValue),
   ("metadata", c.metadata.map (·.toValue))]

theorem toValue_eq (c : Config) : c.toValue = Value.tableOfPresent c.fields :=
  rfl

/-- A configuration is read as it is written, in any format. -/
theorem ofValue?_toValue (format : DocumentFormat) (c : Config) :
    ofValue? format c.toValue = some c := by
  have found : c.toValue.fields? format ["catalog_path", "collect", "batch", "metadata"] =
      some ⟨false, c.fields.map (·.2)⟩ :=
    Value.fields?_tableOfPresent format c.fields (by simp [fields])
  have path :
      (Fields.mk false (c.fields.map (·.2))).optional? 0 Value.text? = some c.catalogPath :=
    Fields.optional?_map rfl rfl (fun _ => rfl) nofun
  have collection : (Fields.mk false (c.fields.map (·.2))).required? 1
      (CollectionConfig.ofValue? format) = some c.collection :=
    CollectionConfig.ofValue?_toValue format c.collection
  have execution : (Fields.mk false (c.fields.map (·.2))).default? 2
      (ExecutionConfig.ofValue? format) {} = some c.execution :=
    ExecutionConfig.ofValue?_toValue format c.execution
  have metadata : (Fields.mk false (c.fields.map (·.2))).optional? 3
      (Experiment.ofValue? format) = some c.metadata :=
    Fields.optional?_map rfl rfl (Experiment.ofValue?_toValue format) nofun
  simp [ofValue?, found, path, collection, execution, metadata]

/-- A configuration has a place in JSON. -/
theorem kept_toValue (c : Config) : Json.Kept c.toValue := by
  have collection : Json.Kept c.collection.toValue := by
    rw [CollectionConfig.toValue_eq]
    apply Json.kept_tableOfPresent
    simp [CollectionConfig.fields, Value.word, Value.natural, Json.Kept.integer, Json.Kept.text]
  have execution : Json.Kept c.execution.toValue := by
    rw [ExecutionConfig.toValue_eq]
    apply Json.kept_tableOfPresent
    simp [ExecutionConfig.fields, Value.word, Value.natural, Json.Kept.integer, Json.Kept.bool]
  have metadata : ∀ m : Experiment, Json.Kept m.toValue := by
    intro m
    rw [Experiment.toValue_eq]
    apply Json.kept_tableOfPresent
    have texts : ∀ tags : List String, Json.Kept (.list (tags.map .text)) := by
      intro tags
      apply Json.Kept.list
      simp [Json.Kept.text]
    simp [Experiment.fields, Json.Kept.text, texts]
  rw [toValue_eq]
  apply Json.kept_tableOfPresent
  simp [fields, Json.Kept.text, collection, execution, metadata]

/-- The JSON text of a configuration is read as the configuration. -/
theorem ofJson?_toJson (c : Config) : ofJson? c.toJson = some c := by
  rw [ofJson?, toJson, Json.parse?_render c.kept_toValue, Option.bind_some, ofValue?_toValue]

/-- In TOML the catalog path comes before the tables, if there is one. -/
theorem plainFields_toFields (c : Config) : Toml.plainFields c.toFields =
    (c.catalogPath.map fun path => ("catalog_path", Value.text path)).toList := by
  obtain ⟨_ | path, collection, execution, _ | metadata⟩ := c <;> rfl

theorem innerTables_toFields (c : Config) : Toml.innerTables c.toFields =
    ("collect", Value.present c.collection.fields) ::
      ("batch", Value.present c.execution.fields) ::
        (c.metadata.map fun m => ("metadata", Value.present m.fields)).toList := by
  obtain ⟨_ | path, collection, execution, _ | metadata⟩ := c <;> rfl

/-- The counts of a configuration. -/
def counts (c : Config) : List UInt64 :=
  c.collection.coreCount :: c.collection.aggressorCores :: c.execution.threads.toList

/-- What holds of texts, truth values and lists of texts holds of every value in a configuration if
it holds of its counts. -/
theorem forall_values_iff (property : Value → Prop) (text : ∀ s, property (.text s))
    (bool : ∀ b, property (.bool b))
    (texts : ∀ tags : List String, property (.list (tags.map .text)))
    (c : Config) :
    ((∀ field ∈ Toml.plainFields c.toFields, property field.2) ∧
      ∀ part ∈ Toml.innerTables c.toFields, ∀ field ∈ part.2, property field.2) ↔
    ∀ n ∈ c.counts, property (.word n) := by
  have collection : (∀ field ∈ Value.present c.collection.fields, property field.2) ↔
      property (.word c.collection.coreCount) ∧ property (.word c.collection.aggressorCores) := by
    simp [Value.present, CollectionConfig.fields, text]
  have execution : (∀ field ∈ Value.present c.execution.fields, property field.2) ↔
      ∀ n ∈ c.execution.threads, property (.word n) := by
    cases threads : c.execution.threads <;>
      simp [Value.present, ExecutionConfig.fields, threads, bool]
  have metadata : ∀ m : Experiment, ∀ field ∈ Value.present m.fields, property field.2 := by
    rintro ⟨name, _ | description, _ | tags⟩ <;>
      simp [Value.present, Experiment.fields, text, texts]
  rw [plainFields_toFields, innerTables_toFields, counts]
  simp only [List.forall_mem_cons, collection, execution, Option.mem_toList, Option.mem_def,
    Option.map_eq_some_iff]
  constructor
  · rintro ⟨-, ⟨coreCount, aggressorCores⟩, threads, -⟩
    exact ⟨coreCount, aggressorCores, threads⟩
  · rintro ⟨coreCount, aggressorCores, threads⟩
    refine ⟨?_, ⟨coreCount, aggressorCores⟩, threads, ?_⟩
    · rintro _ ⟨path, -, rfl⟩
      exact text path
    · rintro _ ⟨m, -, rfl⟩
      exact metadata m

/-- A count has a place in TOML if it is one of a 64-bit integer with a sign. -/
theorem isSome_valueText?_word (n : UInt64) :
    (Toml.valueText? (.word n)).isSome ↔ n.toNat ≤ 2 ^ 63 - 1 := by
  have fits : Toml.fitsInteger n.toNat = true ↔ n.toNat ≤ 2 ^ 63 - 1 := by
    have least : Int64.minValue.toInt = -2 ^ 63 := rfl
    have greatest : Int64.maxValue.toInt = 2 ^ 63 - 1 := rfl
    rw [Toml.fitsInteger, least, greatest, Bool.and_eq_true, decide_eq_true_iff, decide_eq_true_iff]
    omega
  have text : Toml.valueText? (.word n) =
      if Toml.fitsInteger n.toNat then some (toString (n.toNat : Int)).toList else none := rfl
  rw [text, ← fits]
  cases Toml.fitsInteger n.toNat <;> simp

/-- A configuration has a TOML text exactly if TOML has a place for its counts. -/
theorem isSome_toToml? (c : Config) : c.toToml?.isSome ↔ ∀ n ∈ c.counts, n.toNat ≤ 2 ^ 63 - 1 := by
  have texts : ∀ tags : List String, (Toml.valueText? (.list (tags.map .text))).isSome := by
    intro tags
    simp [Toml.valueText?, isSome_mapM, Toml.scalarText?]
  rw [toToml?, Toml.isSome_render?, forall_values_iff (fun v => (Toml.valueText? v).isSome = true)
    (fun _ => rfl) (fun _ => rfl) texts]
  simp only [isSome_valueText?_word]

theorem undated_toFields (c : Config) : Toml.UndatedFields c.toFields := by
  obtain ⟨plain, inner⟩ := (forall_values_iff Toml.Undated (fun _ => trivial) (fun _ => trivial)
    (by simp [Toml.Undated]) c).mpr fun _ _ => trivial
  exact ⟨plain, inner⟩

/-- The fields of a configuration are written in an order that TOML has. -/
theorem arranged_toFields (c : Config) : Toml.arranged c.toFields = c.toFields := by
  obtain ⟨_ | path, collection, execution, _ | metadata⟩ := c <;> rfl

theorem distinct_toFields (c : Config) : Toml.DistinctNames c.toFields where
  outer := by
    rw [arranged_toFields]
    exact Value.nodup_present c.fields (by simp [fields])
  inner := by
    rw [innerTables_toFields]
    simp only [List.forall_mem_cons, Option.mem_toList, Option.map_eq_some_iff]
    refine ⟨Value.nodup_present _ (by simp [CollectionConfig.fields]),
      Value.nodup_present _ (by simp [ExecutionConfig.fields]), ?_⟩
    rintro _ ⟨m, -, rfl⟩
    exact Value.nodup_present _ (by simp [Experiment.fields])

/-- The TOML text of a configuration is read as the configuration. -/
theorem ofToml?_of_toToml? {c : Config} {text : String} (written : c.toToml? = some text) :
    ofToml? text = some c := by
  have parsed := Toml.parse?_render written c.undated_toFields c.distinct_toFields
  rw [ofToml?, parsed, Option.bind_some, arranged_toFields]
  exact ofValue?_toValue Toml.format c

variable {σ : Type}

/-- A usable configuration is kept by a JSON file, and by a TOML file if each of its counts is one
of a 64-bit integer with a sign. Otherwise it is not saved as TOML, and the disk is left alone. -/
theorem kept_by_files (c : Config) (usable : c.problem? = none) (path : Path) :
    KeptInFile path c.toJson c (c.saveJson path : Attempt (StateT σ DiskM) Unit) (loadJson path) ∧
    ((∀ n ∈ c.counts, n.toNat ≤ 2 ^ 63 - 1) → ∃ text, c.toToml? = some text ∧
      KeptInFile path text c (c.saveToml path : Attempt (StateT σ DiskM) Unit) (loadToml path)) ∧
    ((∃ n ∈ c.counts, 2 ^ 63 - 1 < n.toNat) → ∀ (state : σ) (disk : Disk),
      onDisk (c.saveToml path) state disk = ⟨.error .tomlRange, state, disk⟩) := by
  have accepted : (c.checked : Attempt (StateT σ DiskM) Config) = pure c := by
    rw [checked, usable]
    rfl
  refine ⟨?_, fun fits => ?_, fun ⟨n, mem, large⟩ state disk => ?_⟩
  · refine keptInFile_of_read rfl fun disk state found => ?_
    rw [loadJson, onDisk_bind, onDisk_readText, found, Except.mapError, Ended.andThen_ok,
      onDisk_bind, ofJson?_toJson, onDisk_require_some, Ended.andThen_ok, accepted, onDisk_pure]
  · obtain ⟨text, written⟩ := Option.isSome_iff_exists.mp (c.isSome_toToml?.mpr fits)
    have saves : (c.saveToml path : Attempt (StateT σ DiskM) Unit) =
        Attempt.files (Files.writeText path text) := by
      rw [saveToml, written]
      rfl
    refine ⟨text, written, keptInFile_of_read saves fun disk state found => ?_⟩
    rw [loadToml, onDisk_bind, onDisk_readText, found, Except.mapError, Ended.andThen_ok,
      onDisk_bind, ofToml?_of_toToml? written, onDisk_require_some, Ended.andThen_ok, accepted, onDisk_pure]
  · have absent : c.toToml? = none := by
      rw [← Option.not_isSome_iff_eq_none, isSome_toToml?]
      exact fun fits => absurd (fits n mem) (Nat.not_le_of_lt large)
    rw [saveToml, absent, onDisk_bind, onDisk_require_none]
    rfl

/-- A configuration with everything that can be set, with unusual texts and no tags. -/
def oddConfig : Config where
  catalogPath := some "a \"b\"\\ü.toml"
  collection := ⟨9223372036854775807, 0, .malicious, .sum, "\n\"]"⟩
  execution := ⟨some 9223372036854775807, true⟩
  metadata := some ⟨"", some "two\nlines", some []⟩

/-- A configuration with unusual texts is kept by files of both formats, and with one core more by a
JSON file only. -/
theorem kept_by_files_odd_texts :
    let larger := oddConfig.withCores 9223372036854775808 0
    oddConfig.problem? = none ∧ (∀ n ∈ oddConfig.counts, n.toNat ≤ 2 ^ 63 - 1) ∧
    (∃ after,
      onDisk (oddConfig.saveToml (Path.ofString "c") : Attempt (StateT Unit DiskM) Unit) ()
        ⟨.directory []⟩ = ⟨.ok (), (), after⟩ ∧
      onDisk (loadToml (Path.ofString "c") : Attempt (StateT Unit DiskM) Config) () after =
        ⟨.ok oddConfig, (), after⟩) ∧
    larger.problem? = none ∧ (∃ n ∈ larger.counts, 2 ^ 63 - 1 < n.toNat) ∧
    (∃ after,
      onDisk (larger.saveJson (Path.ofString "c") : Attempt (StateT Unit DiskM) Unit) ()
        ⟨.directory []⟩ = ⟨.ok (), (), after⟩ ∧
      onDisk (loadJson (Path.ofString "c") : Attempt (StateT Unit DiskM) Config) () after =
        ⟨.ok larger, (), after⟩) ∧
    onDisk (larger.saveToml (Path.ofString "c") : Attempt (StateT Unit DiskM) Unit) ()
      ⟨.directory []⟩ = ⟨.error .tomlRange, (), ⟨.directory []⟩⟩ := by
  intro larger
  have marked : ¬ Text.trim ['\n', '"', ']'] = [] := by decide
  have usable : oddConfig.problem? = none := by
    simp [problem?, CollectionConfig.problem?, marked, oddConfig]
  have fits : ∀ n ∈ oddConfig.counts, n.toNat ≤ 2 ^ 63 - 1 := by simp [counts, oddConfig]
  have usable' : larger.problem? = none := by
    simp [problem?, CollectionConfig.problem?, marked, larger, withCores, oddConfig]
  have large : ∃ n ∈ larger.counts, 2 ^ 63 - 1 < n.toNat := by
    simp [counts, larger, withCores, oddConfig]
  obtain ⟨-, toml, -⟩ := kept_by_files (σ := Unit) oddConfig usable (Path.ofString "c")
  obtain ⟨text, -, kept⟩ := toml fits
  obtain ⟨json, -, refused⟩ := kept_by_files (σ := Unit) larger usable' (Path.ofString "c")
  exact ⟨usable, fits, ⟨⟨.directory [(Utf8.encode "c", .file (Utf8.encode text))]⟩, kept [] ()⟩,
    usable', large,
    ⟨⟨.directory [(Utf8.encode "c", .file (Utf8.encode larger.toJson))]⟩, json [] ()⟩,
    refused large () ⟨.directory []⟩⟩

end Config

end SpeedupStudy
