import SqlSchema.Check.Engine
import SqlSchema.Check.RoundTrip

/-! # Catalog parity

The stored text of a schema, read and printed again, must rebuild the same schema. The check runs the
statements, reads each stored text, runs the printed statements on an empty catalog, and compares
what the engine reports of both catalogs: for each table its columns (names, types without blanks in
upper case, `NOT NULL`, defaults and key places) and whether it has a rowid; for each index its
uniqueness, whether it is partial, and its parts; and whether a table of autoincrement counters
exists. The engine is a parameter (`Engine`). A failed check gives the text of its failure. -/

namespace SqlSchema.Check

variable (E : Engine)

/-- A declared type as the comparison sees it: without spaces, in upper case. -/
def normalType (ty : String) : String :=
  (String.ofList (ty.toList.filter (· != ' '))).toUpper

/-- A reported column as the comparison sees it. -/
def columnRow (c : ColumnInfo) : String × String × Bool × Bool × Int :=
  (c.name, normalType c.type, c.notNull, c.hasDefault, c.keyPosition)

/-- A compared column as a value. -/
def columnRowValue : String × String × Bool × Bool × Int → Value
  | (n, ty, nn, d, k) => .tuple [.text n, .text ty, .bool nn, .bool d, .int k]

/-- A reported index part as a value. -/
def IndexPartInfo.toValue (p : IndexPartInfo) : Value :=
  .tuple [.int p.column, Value.ofOption p.name, .bool p.descending, Value.ofOption p.collation,
    .bool p.isKey]

/-- A reported index as a value. -/
def IndexInfo.toValue (i : IndexInfo) : Value :=
  .tuple [.bool i.unique, .bool i.isPartial, .list (i.parts.map IndexPartInfo.toValue)]

/-- The failure of a query that found no row. -/
def noRows : String :=
  "called `Result::unwrap()` on an `Err` value: QueryReturnedNoRows"

/-- Whether the table named exactly `n` has a rowid; a failure when there is no such table. -/
def rowidOf (c : E.Catalog) (n : String) : Except String Bool :=
  match E.hasRowid? c n with
  | some b => .ok b
  | none => .error noRows

/-- What the engine reports of the index `index` of the table `table`; a failure when there is none. -/
def indexOf (c : E.Catalog) (table index : String) : Except String IndexInfo :=
  match E.indexInfo? c table index with
  | some i => .ok i
  | none => .error noRows

/-- Compares what the two catalogs report of the object a statement made. -/
def compareObject (built rebuilt : E.Catalog) (s : Statement) : Except String Unit :=
  match s with
  | .table t => do
    expectEqual (fun rows => Value.list (rows.map columnRowValue))
      (some ("Columns differ for " ++ t.name ++ "\n" ++ s.toSql))
      ((E.tableInfo built t.name).map columnRow) ((E.tableInfo rebuilt t.name).map columnRow)
    let l ← rowidOf E built t.name
    let r ← rowidOf E rebuilt t.name
    expectEqual Value.bool (some ("Rowid differs for " ++ t.name)) l r
  | .index i => do
    let l ← indexOf E built i.table i.name
    let r ← indexOf E rebuilt i.table i.name
    expectEqual IndexInfo.toValue (some ("Index differs for " ++ i.name ++ "\n" ++ s.toSql)) l r

/-- Runs `statements`, rebuilds their schema from the printed stored text, and compares the two. -/
def catalogParity (statements : List String) : Except String Unit := do
  let built ← (E.runAll statements).mapError fun (sql, e) => "SQLite rejected " ++ sql ++ ": " ++ e
  let parsed ← (E.storedSql built).mapM fun sql =>
    (Statement.parse sql).mapError fun e => "Catalog SQL rejected: " ++ e.message ++ "\n" ++ sql
  let rebuilt ← parsed.foldlM (fun c s =>
    let formatted := s.toSql
    (E.run c formatted).mapError fun e => "SQLite rejected formatted SQL: " ++ e ++ "\n" ++ formatted) E.empty
  parsed.forM (compareObject E built rebuilt)
  expectEqual Value.bool (some "AUTOINCREMENT differs") (E.hasSequence built) (E.hasSequence rebuilt)

/-- The check of a generated schema: its statements pass the catalog parity check, and then each of
    them reads back from its own print. -/
def schemaParity (statements : List String) : Except String Unit := do
  catalogParity E statements
  statements.forM fun sql => (assertRoundTrip sql).map fun _ => ()

end SqlSchema.Check
