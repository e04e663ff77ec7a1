import SqlSchema.Catalog.Schema
import SqlSchema.Check.Engine

/-! # What the engine reports of its schema

The engine answers questions about its objects: the columns of a table, whether a table has a rowid,
and the parts of an index. A name is looked up as the engine does: tables and indexes in the temporary
schema first and without regard to case, while the list of all tables is searched for the exact name,
main schema first.

A column's place in the key is `0` outside the key, `1` for the rowid column, and otherwise its
position in the index of the key, counting from `1`. Generated columns are not reported. -/

namespace SqlSchema.Catalog

open Check (ColumnInfo IndexPartInfo IndexInfo)

namespace Table

/-- The place of the column `c`, at position `i`, in the table's key. -/
def keyPosition (t : Table) (i : Nat) (c : Column) : Int :=
  if !c.inPrimaryKey then 0
  else
    match t.primaryIndex? with
    | none => 1
    | some pk =>
      match pk.keys.findIdx? (·.column == (i : Int)) with
      | some k => k + 1
      | none => t.columns.length + 1

/-- The reported columns of the table, generated columns left out. -/
def columnInfo (t : Table) : List ColumnInfo :=
  t.columns.zipIdx.filterMap fun (c, i) =>
    if c.generated.isSome then none
    else some { name := c.name, type := c.type.text, notNull := c.notNull, hasDefault := c.hasDefault,
                keyPosition := t.keyPosition i c }

/-- The parts after the keys of one of the table's constraint indexes: the rowid, the columns of a
    key without rowid that it does not hold, or for that key itself the other columns. -/
def constraintRowParts (t : Table) (ix : Index) : List KeyPart :=
  if !t.withoutRowid then [{ column := -1, collation := "BINARY", descending := false }]
  else if ix.origin = .primaryKey then
    (List.range t.columns.length).filterMap fun (i : Nat) =>
      if ix.keys.any (·.column == (i : Int)) then none
      else some { column := (i : Int), collation := "BINARY", descending := false }
  else
    match t.primaryIndex? with
    | some pk =>
      (pk.keys.filter fun k =>
        !ix.keys.any fun k' => k'.column == k.column && sameName k'.collation k.collation).map
        fun k => { k with descending := false }
    | none => []

/-- The reported part of an index on the table. -/
def partInfo (t : Table) (isKey : Bool) (k : KeyPart) : IndexPartInfo :=
  { column := k.column
    name := if k.column < 0 then none else (t.columns[k.column.toNat]?).map (·.name)
    descending := k.descending
    collation := some k.collation
    isKey := isKey }

/-- The reported parts of an index on the table: its keys, then the parts that identify a row. -/
def indexParts (t : Table) (ix : Index) : List IndexPartInfo :=
  let rest := if ix.origin = .statement then ix.rowParts else t.constraintRowParts ix
  ix.keys.map (t.partInfo true) ++ rest.map (t.partInfo false)

end Table

namespace Database

/-- The reported columns of the table named `n`; none when there is no such table. -/
def tableInfo (c : Database) (n : String) : List ColumnInfo :=
  match c.relation? n with
  | some (_, .table t) => t.columnInfo
  | _ => []

/-- Whether the table or view named exactly `n` has a rowid, main schema first; `none` when no table
    or view has that name. -/
def hasRowid? (c : Database) (n : String) : Option Bool :=
  let inSchema (s : Schema) (own : String) : Option Bool :=
    match s.entries.findSome? fun
        | .table t => if t.name == n then some !t.withoutRowid else none
        | .view v => if v.name == n then some true else none
        | _ => none with
    | some b => some b
    | none =>
      if n == own || (n == "sqlite_sequence" && s.hasSequence) then some true else none
  match inSchema c.main "sqlite_schema" with
  | some b => some b
  | none => inSchema c.temp "sqlite_temp_schema"

/-- The indexes of the table `t` of schema `sn`: those of its constraints, then those of statements. -/
def indexesOf (c : Database) (sn : SchemaName) (t : Table) : List Index :=
  t.indexes ++ (c.schema sn).indexesOn t.name

/-- The index named `n` with its table, temporary schema first. -/
def indexWithTable? (c : Database) (n : String) : Option (Table × Index) :=
  let inSchema (sn : SchemaName) : Option (Table × Index) :=
    (c.schema sn).entries.findSome? fun
      | .table t => (t.indexes.find? (sameName ·.name n)).map (t, ·)
      | .index ix =>
        if sameName ix.name n then
          match (c.schema sn).relation? ix.table with
          | some (.table t) => some (t, ix)
          | _ => none
        else none
      | _ => none
  match inSchema .temp with
  | some p => some p
  | none => inSchema .main

/-- The reported parts of the index named `n`, or of the key of a table without rowid of that name. -/
def indexParts (c : Database) (n : String) : List IndexPartInfo :=
  match c.indexWithTable? n with
  | some (t, ix) => t.indexParts ix
  | none =>
    match c.relation? n with
    | some (_, .table t) =>
      if t.withoutRowid then
        match t.primaryIndex? with
        | some pk => t.indexParts pk
        | none => []
      else []
    | _ => []

/-- What the engine reports of the index named exactly `index` among those of the table `table`;
    `none` when the table has no such index. -/
def indexInfo? (c : Database) (table index : String) : Option IndexInfo :=
  match c.relation? table with
  | some (sn, .table t) =>
    (c.indexesOf sn t).find? (·.name == index) |>.map fun ix =>
      { unique := ix.unique, isPartial := ix.isPartial, parts := c.indexParts index }
  | _ => none

end Database

end SqlSchema.Catalog
