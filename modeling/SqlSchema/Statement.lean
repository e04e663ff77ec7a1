import SqlSchema.Expr

/-! # Statements

The schema model: a `CREATE TABLE` statement is a `Table` of `Field`s with its primary key, a
`CREATE INDEX` statement an `Index` of expression columns with an optional predicate. The primary key
lists field positions in the order the key names them; a field in it carries the flag
`inPrimaryKey`. Names are looked up up to ASCII case, first match, as the schema language does. -/

namespace SqlSchema

/-- A column of a table. -/
structure Field where
  name : String
  /-- The declared type as written, words joined by one blank; empty when none is declared. -/
  typeName : String := ""
  /-- The default's text: a literal, the inside of a parenthesised expression, or a quoted text
      without its quotes. -/
  defaultValue : Option String := none
  /-- The default was written as an expression in parentheses. -/
  defaultIsExpression : Bool := false
  /-- The default was written in quotes. -/
  defaultIsQuoted : Bool := false
  inPrimaryKey : Bool := false
  autoIncrement : Bool := false
  notNull : Bool := false
  deriving DecidableEq, Repr, Inhabited

/-- A `CREATE TABLE` statement. -/
structure Table where
  name : String
  fields : List Field := []
  /-- Positions of the key's fields, in the order the key names them. -/
  primaryKey : List Nat := []
  hasRowid : Bool := true
  temporary : Bool := false
  deriving DecidableEq, Repr, Inhabited

/-- A `CREATE INDEX` statement. -/
structure Index where
  name : String
  table : String
  unique : Bool
  columns : List Expr
  predicate : Option Expr
  deriving DecidableEq, Repr, Inhabited

/-- A statement of the schema. -/
inductive Statement where
  | table (t : Table)
  | index (i : Index)
  deriving DecidableEq, Repr, Inhabited

namespace Table

/-- The column names, in order. -/
def columnNames (t : Table) : List String :=
  t.fields.map (·.name)

/-- The position of the first field named `name` up to ASCII case. -/
def position? (t : Table) (name : String) : Option Nat :=
  t.fields.findIdx? (fun f => sameWord f.name name)

/-- The first field named `name` up to ASCII case. -/
def field? (t : Table) (name : String) : Option Field :=
  t.fields.find? (fun f => sameWord f.name name)

/-- Puts the field at position `i` into the primary key: it is flagged, and its position is added to
    the key unless it is there already. -/
def markPrimaryKey (t : Table) (i : Nat) : Table :=
  { t with
    fields := t.fields.modify i (fun f => { f with inPrimaryKey := true })
    primaryKey := if t.primaryKey.contains i then t.primaryKey else t.primaryKey ++ [i] }

/-- Sets the auto-increment flag of the field at position `i`. -/
def markAutoIncrement (t : Table) (i : Nat) : Table :=
  { t with fields := t.fields.modify i (fun f => { f with autoIncrement := true }) }

end Table

namespace Statement

/-- The name of the table a statement creates or indexes. -/
def tableName : Statement → String
  | .table t => t.name
  | .index i => i.table

/-- The name of the index a statement creates. -/
def indexName? : Statement → Option String
  | .table _ => none
  | .index i => some i.name

end Statement

end SqlSchema
