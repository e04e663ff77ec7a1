/-! # The engine the parity check runs

The catalog parity check runs statements on a database engine and asks it about its schema. It needs
of the engine only what this interface gives: a catalog with no objects, running a text of
statements on a catalog, the stored text of the objects of the main schema, and what the engine
reports of a table's columns, of whether a table has a rowid, of an index, and of whether the table
of autoincrement counters exists. -/

namespace SqlSchema.Check

/-- What the engine reports of a column. -/
structure ColumnInfo where
  name : String
  type : String
  notNull : Bool
  hasDefault : Bool
  /-- The place of the column in the table's key, `0` when it is not in it. -/
  keyPosition : Int
  deriving DecidableEq, Repr

/-- What the engine reports of one part of an index. -/
structure IndexPartInfo where
  /-- The table column, `-1` for the rowid and `-2` for an expression. -/
  column : Int
  name : Option String
  descending : Bool
  collation : Option String
  /-- The part is a key of the index, not one that identifies the row. -/
  isKey : Bool
  deriving DecidableEq, Repr

/-- What the engine reports of an index. -/
structure IndexInfo where
  unique : Bool
  isPartial : Bool
  parts : List IndexPartInfo
  deriving DecidableEq, Repr

/-- A database engine as the parity check uses it. -/
structure Engine where
  /-- The engine's catalogs. -/
  Catalog : Type
  /-- A catalog with no objects. -/
  empty : Catalog
  /-- Runs a text of statements: the catalog after them, or the display of the engine's error. -/
  run : Catalog → String → Except String Catalog
  /-- The stored text of the objects of the main schema, oldest first, without the engine's own. -/
  storedSql : Catalog → List String
  /-- The columns of the table of a name. -/
  tableInfo : Catalog → String → List ColumnInfo
  /-- Whether the table of exactly a name has a rowid, if there is one. -/
  hasRowid? : Catalog → String → Option Bool
  /-- The index of a name on the table of a name, if there is one. -/
  indexInfo? : Catalog → String → String → Option IndexInfo
  /-- Whether the table of autoincrement counters exists in the main schema. -/
  hasSequence : Catalog → Bool

/-- Runs each text in turn on an empty catalog: the catalog after them, or the text that failed with
    the display of its error. -/
def Engine.runAll (E : Engine) (texts : List String) : Except (String × String) E.Catalog :=
  texts.foldlM (fun c t => (E.run c t).mapError fun e => (t, e)) E.empty

end SqlSchema.Check
