import SqlSchema.Statement
import SqlSchema.Expr.Printer

/-! # Printing statements

Every statement has one canonical text. Table, column and index names are double-quoted; a table has
one column per line, each after a tab, with its type after another tab; the primary key comes last as
a table constraint, followed by `AUTOINCREMENT` when every field of the key has it. An index has one
expression column per line. Expressions keep the quoting their tokens were read with. -/

namespace SqlSchema

/-- A column's line, without the line break. -/
def Field.toSql (f : Field) : String :=
  "\t" ++ quoteIdentifier f.name ++
  (if f.typeName.isEmpty then "" else "\t" ++ f.typeName) ++
  (if f.notNull then " NOT NULL" else "") ++
  match f.defaultValue with
  | some d =>
    " DEFAULT " ++
      (if f.defaultIsQuoted then Quoted.enquote Token.apostrophe d
       else if f.defaultIsExpression then "(" ++ d ++ ")"
       else d)
  | none => ""

/-- The primary key constraint of a table, when it has a key. -/
def Table.keySql (t : Table) : String :=
  if t.primaryKey.isEmpty then ""
  else
    let field (i : Nat) : Field := t.fields.getD i default
    ",\n\tPRIMARY KEY(" ++ ",".intercalate (t.primaryKey.map fun i => quoteIdentifier (field i).name) ++
      (if t.primaryKey.all fun i => (field i).autoIncrement then " AUTOINCREMENT" else "") ++ ")"

/-- The canonical text of a table. -/
def Table.toSql (t : Table) : String :=
  (if t.temporary then "CREATE TEMPORARY TABLE " else "CREATE TABLE ") ++ quoteIdentifier t.name ++
    " (\n" ++ ",\n".intercalate (t.fields.map Field.toSql) ++ t.keySql ++ "\n)" ++
    (if t.hasRowid then "" else " WITHOUT ROWID")

/-- The canonical text of an index. -/
def Index.toSql (i : Index) : String :=
  (if i.unique then "CREATE UNIQUE INDEX " else "CREATE INDEX ") ++ quoteIdentifier i.name ++ " ON " ++
    quoteIdentifier i.table ++ " (\n" ++ ",\n".intercalate (i.columns.map fun c => "\t" ++ c.render) ++
    "\n)" ++
    match i.predicate with
    | some p => " WHERE " ++ p.render
    | none => ""

/-- The canonical text of a statement. -/
def Statement.toSql : Statement → String
  | .table t => t.toSql
  | .index i => i.toSql

end SqlSchema
