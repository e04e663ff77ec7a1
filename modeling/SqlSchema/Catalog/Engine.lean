import SqlSchema.Catalog.Batch
import SqlSchema.Catalog.Pragma
import SqlSchema.Check.Engine

/-! # The catalog as an engine

The in-memory catalog with the reports the parity check asks for, as the engine it runs. -/

namespace SqlSchema.Catalog

/-- The in-memory catalog as the parity check's engine. -/
def engine : Check.Engine where
  Catalog := Database
  empty := {}
  run := Database.run
  storedSql := Database.storedSql
  tableInfo := Database.tableInfo
  hasRowid? := Database.hasRowid?
  indexInfo? := Database.indexInfo?
  hasSequence c := c.main.hasSequence

/-- The stored text after running each text in turn on an empty catalog, or the display of the
    first error. -/
def catalogSql (texts : List String) : Except String (List String) :=
  match engine.runAll texts with
  | .ok c => .ok (engine.storedSql c)
  | .error (_, e) => .error e

end SqlSchema.Catalog
