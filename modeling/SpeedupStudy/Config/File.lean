/-
# Configuration files

A configuration is kept in a TOML or a JSON file. Both are checked when they are read, and neither
is touched when the configuration cannot be written.
-/

import SpeedupStudy.Catalog.Builtin
import SpeedupStudy.Catalog.File
import SpeedupStudy.Config.Document
import SpeedupStudy.Json.Reader
import SpeedupStudy.Json.Writer

namespace SpeedupStudy

namespace Config

variable {m : Type → Type} [Monad m] [Files m]

/-- The TOML text of a configuration, if its counts have a place there. -/
def toToml? (c : Config) : Option String :=
  Toml.render? c.toFields

/-- The configuration of a TOML text. -/
def ofToml? (text : String) : Option Config :=
  (Toml.parse? text).bind (ofValue? Toml.format)

/-- The JSON text of a configuration. -/
def toJson (c : Config) : String :=
  Json.render c.toValue

/-- The configuration of a JSON text. -/
def ofJson? (text : String) : Option Config :=
  (Json.parse? text).bind (ofValue? Json.format)

/-- Only a usable configuration is taken from a file. -/
def checked (c : Config) : Attempt m Config := do
  Attempt.refuse (.config ∘ .invalid) c.problem?
  return c

/-- Write a configuration to a TOML file. -/
def saveToml (c : Config) (path : Path) : Attempt m Unit := do
  let text ← Attempt.require .tomlRange c.toToml?
  Attempt.files (Files.writeText path text)

/-- Read a configuration from a TOML file. -/
def loadToml (path : Path) : Attempt m Config := do
  let text ← Attempt.files (Files.readText path)
  checked (← Attempt.require .toml (ofToml? text))

/-- Write a configuration to a JSON file. -/
def saveJson (c : Config) (path : Path) : Attempt m Unit :=
  Attempt.files (Files.writeText path c.toJson)

/-- Read a configuration from a JSON file. -/
def loadJson (path : Path) : Attempt m Config := do
  let text ← Attempt.files (Files.readText path)
  checked (← Attempt.require .json (ofJson? text))

/-- The catalog of a configuration: that of its file, or the built-in one. -/
def loadCatalog (c : Config) : Attempt m Catalog :=
  match c.catalogPath with
  | some path => Catalog.load (Path.ofString path)
  | none => pure Catalog.builtin

end Config

end SpeedupStudy
