/-
# Catalog files

A catalog is kept in a TOML file and checked when it is read.
-/

import SpeedupStudy.Catalog.Document
import SpeedupStudy.Failure
import SpeedupStudy.Toml.Reader
import SpeedupStudy.Toml.Writer

namespace SpeedupStudy

namespace Catalog

variable {m : Type → Type} [Monad m] [Files m]

/-- The TOML text of a catalog. -/
def toToml? (c : Catalog) : Option String :=
  Toml.render? c.toFields

/-- The catalog of a TOML text. -/
def ofToml? (text : String) : Option Catalog :=
  (Toml.parse? text).bind (ofValue? Toml.format)

/-- Write a catalog to a file. -/
def save (c : Catalog) (path : Path) : Attempt m Unit := do
  let text ← Attempt.require .tomlRange c.toToml?
  Attempt.files (Files.writeText path text)

/-- Only a usable catalog is taken from a file. -/
def checked (c : Catalog) : Attempt m Catalog := do
  Attempt.refuse .catalog c.problem?
  return c

/-- Read a catalog from a file. -/
def load (path : Path) : Attempt m Catalog := do
  let text ← Attempt.files (Files.readText path)
  checked (← Attempt.require .toml (ofToml? text))

end Catalog

end SpeedupStudy
