import SqlSchema.Catalog.Name
import SqlSchema.Catalog.Term

/-! # Catalog objects

A database holds two schemas, the main one and the temporary one. A schema is a list of entries in the
order they were created: tables, indexes, views and triggers, each with the statement text stored for
it. A table knows its columns, its `INTEGER PRIMARY KEY` column if it has one, whether it has a rowid,
and the indexes its constraints made; an index knows its key parts, each a column (or the rowid, or an
expression), a collation and a direction, followed by the parts that identify a row. -/

namespace SqlSchema.Catalog

/-- The standard column types, whose names are kept in upper case. -/
def standardTypes : List String := ["ANY", "BLOB", "INT", "INTEGER", "REAL", "TEXT"]

/-- A declared column type: none, a standard type, or any other text. -/
inductive ColumnType where
  | none
  | standard (name : String)
  | custom (text : String)
  deriving DecidableEq, Repr, Inhabited

/-- The text a column type shows. -/
def ColumnType.text : ColumnType → String
  | .none => ""
  | .standard n => n
  | .custom t => t

/-- A column of a table. -/
structure Column where
  name : String
  type : ColumnType := .none
  notNull : Bool := false
  hasDefault : Bool := false
  /-- The expression of a generated column. -/
  generated : Option Term := none
  inPrimaryKey : Bool := false
  collation : Option String := none
  deriving Repr, Inhabited

/-- The column at position `i` of an index: a table column, the rowid (`-1`) or an expression (`-2`). -/
structure KeyPart where
  column : Int
  collation : String
  descending : Bool
  deriving DecidableEq, Repr, Inhabited

/-- Where an index comes from: a statement, a `UNIQUE` constraint or a `PRIMARY KEY` constraint. -/
inductive IndexOrigin where
  | statement
  | unique
  | primaryKey
  deriving DecidableEq, Repr, Inhabited

/-- An index: its key parts, then the parts that identify a row. -/
structure Index where
  name : String
  table : String
  unique : Bool
  isPartial : Bool := false
  keys : List KeyPart
  rowParts : List KeyPart := []
  origin : IndexOrigin := .statement
  sql : Option String := none
  deriving Repr, Inhabited

/-- A table. -/
structure Table where
  name : String
  columns : List Column := []
  /-- The column that is the rowid, declared `INTEGER PRIMARY KEY`. -/
  rowidColumn : Option Nat := none
  hasPrimaryKey : Bool := false
  autoincrement : Bool := false
  withoutRowid : Bool := false
  strict : Bool := false
  /-- The indexes made by the table's constraints, in the order they were made. -/
  indexes : List Index := []
  checks : List Term := []
  sql : Option String := none
  deriving Repr, Inhabited

/-- A view: its name and stored text. -/
structure View where
  name : String
  sql : String
  deriving Repr, Inhabited

/-- A trigger: its name, its table and its stored text. -/
structure Trigger where
  name : String
  table : String
  sql : String
  deriving Repr, Inhabited

/-- An object of a schema. -/
inductive Entry where
  | table (t : Table)
  | index (i : Index)
  | view (v : View)
  | trigger (tr : Trigger)
  deriving Repr, Inhabited

namespace Entry

/-- The name of the object. -/
def name : Entry → String
  | .table t => t.name
  | .index i => i.name
  | .view v => v.name
  | .trigger tr => tr.name

/-- The stored text of the object, if it has one. -/
def sql? : Entry → Option String
  | .table t => t.sql
  | .index i => i.sql
  | .view v => some v.sql
  | .trigger tr => some tr.sql

end Entry

/-- A schema: its objects in the order they were made, and whether the table of autoincrement counters
    exists. -/
structure Schema where
  entries : List Entry := []
  hasSequence : Bool := false
  deriving Repr, Inhabited

/-- What a name finds among tables and views. -/
inductive Relation where
  | table (t : Table)
  | view (v : View)
  deriving Repr, Inhabited

namespace Table

/-- The position of the column named `n`. -/
def columnIndex? (t : Table) (n : String) : Option Nat :=
  t.columns.findIdx? (fun c => sameName c.name n)

/-- The index of the table's primary key, if the key is not the rowid. -/
def primaryIndex? (t : Table) : Option Index :=
  t.indexes.find? (·.origin == .primaryKey)

/-- The table of the schema's counters. -/
def sequence : Table :=
  { name := "sqlite_sequence", columns := [{ name := "name" }, { name := "seq" }] }

/-- The table of a schema's own entries. -/
def master (n : String) : Table :=
  { name := n, columns := [{ name := "type" }, { name := "name" }, { name := "tbl_name" },
      { name := "rootpage" }, { name := "sql" }] }

end Table

namespace Schema

/-- The table or view named `n`. -/
def relation? (s : Schema) (n : String) : Option Relation :=
  s.entries.findSome? fun
    | .table t => if sameName t.name n then some (.table t) else none
    | .view v => if sameName v.name n then some (.view v) else none
    | _ => none

/-- The index named `n`. -/
def index? (s : Schema) (n : String) : Option Index :=
  s.entries.findSome? fun
    | .index i => if sameName i.name n then some i else none
    | _ => none

/-- The trigger named `n`. -/
def trigger? (s : Schema) (n : String) : Option Trigger :=
  s.entries.findSome? fun
    | .trigger tr => if sameName tr.name n then some tr else none
    | _ => none

/-- The schema with one more object. -/
def add (s : Schema) (e : Entry) : Schema :=
  { s with entries := s.entries ++ [e] }

/-- The indexes on the table named `n`, oldest first. -/
def indexesOn (s : Schema) (n : String) : List Index :=
  s.entries.filterMap fun
    | .index i => if sameName i.table n then some i else none
    | _ => none

end Schema

/-- The two schemas of a database. -/
structure Database where
  main : Schema := {}
  temp : Schema := {}
  deriving Repr, Inhabited

/-- The schemas of a database by name. -/
inductive SchemaName where
  | main
  | temp
  deriving DecidableEq, Repr, Inhabited

namespace SchemaName

/-- The name of the schema as messages write it. -/
def text : SchemaName → String
  | .main => "main"
  | .temp => "temp"

/-- The schema a database name stands for. -/
def ofName? (n : String) : Option SchemaName :=
  if sameName n "main" then some .main
  else if sameName n "temp" then some .temp
  else none

end SchemaName

namespace Database

/-- One schema of the catalog. -/
def schema (c : Database) : SchemaName → Schema
  | .main => c.main
  | .temp => c.temp

/-- The catalog with one schema replaced. -/
def withSchema (c : Database) : SchemaName → Schema → Database
  | .main, s => { c with main := s }
  | .temp, s => { c with temp := s }

/-- The table or view named `n` in schema `sn`, the engine's own tables included. -/
def relationIn? (c : Database) (sn : SchemaName) (n : String) : Option Relation :=
  match (c.schema sn).relation? n with
  | some r => some r
  | none =>
    match sn with
    | .main =>
      if sameName n "sqlite_master" || sameName n "sqlite_schema" then
        some (.table (Table.master "sqlite_master"))
      else if sameName n "sqlite_sequence" && c.main.hasSequence then some (.table Table.sequence)
      else none
    | .temp =>
      if sameName n "sqlite_temp_master" || sameName n "sqlite_temp_schema" ||
          sameName n "sqlite_master" || sameName n "sqlite_schema" then
        some (.table (Table.master "sqlite_temp_master"))
      else if sameName n "sqlite_sequence" && c.temp.hasSequence then some (.table Table.sequence)
      else none

/-- The table or view named `n`, looked up in the temporary schema first; with the schema it is in. -/
def relation? (c : Database) (n : String) : Option (SchemaName × Relation) :=
  match c.temp.relation? n with
  | some r => some (.temp, r)
  | none =>
    match c.main.relation? n with
    | some r => some (.main, r)
    | none =>
      if sameName n "sqlite_master" || sameName n "sqlite_schema" then
        some (.main, .table (Table.master "sqlite_master"))
      else if sameName n "sqlite_temp_master" || sameName n "sqlite_temp_schema" then
        some (.temp, .table (Table.master "sqlite_temp_master"))
      else if sameName n "sqlite_sequence" && c.temp.hasSequence then
        some (.temp, .table Table.sequence)
      else if sameName n "sqlite_sequence" && c.main.hasSequence then
        some (.main, .table Table.sequence)
      else none

/-- The index named `n`, looked up in the temporary schema first. -/
def index? (c : Database) (n : String) : Option Index :=
  match c.temp.index? n with
  | some i => some i
  | none => c.main.index? n

end Database

end SqlSchema.Catalog
