import SqlSchema.Statement
import SqlSchema.Statement.Cursor
import SqlSchema.Token.Lexer

/-! # Reading statements

The grammar of the two statements, read in one pass. Keywords match up to ASCII case. Clauses that
the model does not keep are checked only as far as their shape goes: a `CHECK`, a generated column's
body, a foreign key's column list and a `UNIQUE` list are skipped as one balanced parenthesised run.

A table element that starts with `CONSTRAINT`, `PRIMARY`, `UNIQUE`, `CHECK` or `FOREIGN` is a table
constraint; any other is a column. A column's type is the run of bare words (other than the words
that open a column constraint) and quoted names or strings after its name, with an optional size
`(n)` or `(n, m)`. -/

namespace SqlSchema.Reader

open Cursor

/-- Words that open a column constraint, and so end a column's type. -/
def columnConstraintWords : List String :=
  ["CONSTRAINT", "PRIMARY", "NULL", "UNIQUE", "CHECK", "DEFAULT", "REFERENCES", "GENERATED"]

/-- Words that open a table constraint. -/
def tableConstraintWords : List String :=
  ["CONSTRAINT", "PRIMARY", "UNIQUE", "CHECK", "FOREIGN"]

/-- The ways to resolve a conflict. -/
def conflictActions : List String :=
  ["ROLLBACK", "ABORT", "FAIL", "IGNORE", "REPLACE"]

/-- Skips one balanced run of parentheses, which has to come next. -/
def skipBalanced : Cursor Unit := do
  expectPunct '('
  let _ ← repeatWhile (fun depth => do
    let t ← next ")"
    let d := if t.isPunct '(' then depth + 1 else if t.isPunct ')' then depth - 1 else depth
    pure (d, 0 < d)) 1
  pure ()

/-- `IF NOT EXISTS`, if it is there. -/
def ifNotExists : Cursor Unit := do
  if ← eatKeyword "IF" then
    expectKeyword "NOT"
    expectKeyword "EXISTS"

/-- A name with an optional schema before a point; the schema is dropped. -/
def qualifiedName : Cursor String := do
  let n ← expectName "name"
  if (← peek?).any (·.isOperator ".") then
    skip
    expectName "name"
  else pure n

/-- A number with an optional sign, as its text. -/
def signedNumber : Cursor String := do
  let sign ← do
    match ← peek? with
    | some t => if t.isOperator "-" || t.isOperator "+" then skip; pure t.text else pure ""
    | none => pure ""
  let t ← next "number"
  if t.kind == .numeric then pure (sign ++ t.text) else throw (.unexpectedToken "number" t)

/-- A token that belongs to a column's type. -/
def isTypeWord (t : Token) : Bool :=
  match t.kind with
  | .word => !columnConstraintWords.any t.isKeyword
  | .quoted | .bracketed | .backquoted | .string => true
  | _ => false

/-- A column's type: its words in source form joined by one blank, then its size if any. -/
def typeName : Cursor String := do
  let words ← takeWhile isTypeWord
  let base := " ".intercalate (words.map Token.render)
  if base.isEmpty then pure base
  else if ← eatPunct '(' then
    let first ← signedNumber
    let second ← do
      if ← eatPunct ',' then pure ("," ++ (← signedNumber)) else pure ""
    expectPunct ')'
    pure (base ++ "(" ++ first ++ second ++ ")")
  else pure base

/-- `ON CONFLICT` with its resolution, if it is there. -/
def conflictClause : Cursor Unit := do
  if ← eatKeyword "ON" then
    expectKeyword "CONFLICT"
    expectOneOf conflictActions "conflict resolution"

/-- One `ON DELETE|UPDATE` action or `MATCH` clause of a foreign key; says whether there was one. -/
def foreignKeyAction (u : Unit) : Cursor (Unit × Bool) := do
  if ← eatKeyword "ON" then
    expectOneOf ["DELETE", "UPDATE"] "DELETE or UPDATE"
    if ← eatKeyword "SET" then expectOneOf ["NULL", "DEFAULT"] "NULL or DEFAULT"
    else if ← eatKeyword "NO" then expectKeyword "ACTION"
    else expectOneOf ["CASCADE", "RESTRICT"] "foreign key action"
    pure (u, true)
  else if ← eatKeyword "MATCH" then
    let _ ← expectName "match type"
    pure (u, true)
  else pure (u, false)

/-- The clause after `REFERENCES`: the table, its columns, actions, and deferral. -/
def foreignKeyClause : Cursor Unit := do
  let _ ← expectName "referenced table"
  if (← peek?).any (·.isPunct '(') then skipBalanced
  let _ ← repeatWhile foreignKeyAction ()
  let ts ← get
  match ts with
  | a :: b :: _ => if a.isKeyword "NOT" && b.isKeyword "DEFERRABLE" then skip
  | _ => pure ()
  if ← eatKeyword "DEFERRABLE" then
    if ← eatKeyword "INITIALLY" then
      expectOneOf ["DEFERRED", "IMMEDIATE"] "DEFERRED or IMMEDIATE"

/-- A column's default: an expression in parentheses, a signed number, or a single literal or
    name. -/
def defaultClause (f : Field) : Cursor Field := do
  let literal : Cursor Field := do
    let t ← next "default value"
    match t.kind with
    | .string | .quoted | .bracketed | .backquoted =>
      pure { f with defaultValue := some t.text, defaultIsQuoted := true }
    | .blob => pure { f with defaultValue := some ("X'" ++ t.text ++ "'") }
    | .numeric | .word => pure { f with defaultValue := some t.text }
    | _ => throw (.unexpectedToken "default value" t)
  match ← peek? with
  | some t =>
    if t.isPunct '(' then
      match ← operand "DEFAULT value" with
      | .paren inner => pure { f with defaultValue := some inner.render, defaultIsExpression := true }
      | _ => throw (.invalidExpression "DEFAULT value")
    else if t.isOperator "-" || t.isOperator "+" then
      pure { f with defaultValue := some (← signedNumber) }
    else literal
  | none => literal

/-- A generated column's body and its optional storage word. -/
def generatedBody : Cursor Unit := do
  skipBalanced
  let _ ← eatAnyKeyword ["STORED", "VIRTUAL"]

/-- One column constraint, applied to `f`; says whether there was one. -/
def columnConstraint (f : Field) : Cursor (Field × Bool) := do
  let named ← eatKeyword "CONSTRAINT"
  if named then
    let _ ← expectName "constraint name"
  if ← eatKeyword "PRIMARY" then
    expectKeyword "KEY"
    let _ ← eatAnyKeyword ["ASC", "DESC"]
    conflictClause
    let auto ← eatKeyword "AUTOINCREMENT"
    pure ({ f with inPrimaryKey := true, autoIncrement := f.autoIncrement || auto }, true)
  else if ← eatKeyword "NOT" then
    expectKeyword "NULL"
    conflictClause
    pure ({ f with notNull := true }, true)
  else if ← eatAnyKeyword ["NULL", "UNIQUE"] then
    conflictClause
    pure (f, true)
  else if ← eatKeyword "CHECK" then
    skipBalanced
    pure (f, true)
  else if ← eatKeyword "DEFAULT" then
    pure (← defaultClause f, true)
  else if ← eatKeyword "COLLATE" then
    let _ ← expectName "collation name"
    pure (f, true)
  else if ← eatKeyword "REFERENCES" then
    foreignKeyClause
    pure (f, true)
  else if ← eatKeyword "GENERATED" then
    expectKeyword "ALWAYS"
    expectKeyword "AS"
    generatedBody
    pure (f, true)
  else if ← eatKeyword "AS" then
    generatedBody
    pure (f, true)
  else if named then unexpected "column constraint"
  else pure (f, false)

/-- A column: its name, type and constraints, added to `t`. -/
def columnDef (t : Table) : Cursor Table := do
  let name ← expectName "column name"
  let ty ← typeName
  let f ← repeatWhile columnConstraint { name, typeName := ty }
  let i := t.fields.length
  let t := { t with fields := t.fields ++ [f] }
  pure (if f.inPrimaryKey then t.markPrimaryKey i else t)

/-- One column of a table-level primary key, added to the positions `keys` when `t` has it. -/
def keyColumn (t : Table) (keys : List Nat) : Cursor (List Nat × Bool) := do
  let name ← expectName "primary key column"
  if ← eatKeyword "COLLATE" then
    let _ ← expectName "collation name"
  let _ ← eatAnyKeyword ["ASC", "DESC"]
  let keys := match t.position? name with
    | some i => keys ++ [i]
    | none => keys
  pure (keys, ← eatPunct ',')

/-- A table constraint, applied to `t`. -/
def tableConstraint (t : Table) : Cursor Table := do
  if ← eatKeyword "CONSTRAINT" then
    let _ ← expectName "constraint name"
  if ← eatKeyword "PRIMARY" then
    expectKeyword "KEY"
    expectPunct '('
    let keys ← repeatWhile (keyColumn t) []
    let auto ← eatKeyword "AUTOINCREMENT"
    expectPunct ')'
    conflictClause
    pure (keys.foldl (fun t i =>
      let t := t.markPrimaryKey i
      if auto then t.markAutoIncrement i else t) t)
  else if ← eatKeyword "UNIQUE" then
    skipBalanced
    conflictClause
    pure t
  else if ← eatKeyword "CHECK" then
    skipBalanced
    pure t
  else if ← eatKeyword "FOREIGN" then
    expectKeyword "KEY"
    skipBalanced
    expectKeyword "REFERENCES"
    foreignKeyClause
    pure t
  else unexpected "table constraint"

/-- One element of a table, a column or a table constraint, then whether a comma follows. -/
def tableElement (t : Table) : Cursor (Table × Bool) := do
  let isConstraint := (← peek?).any fun tok => tableConstraintWords.any tok.isKeyword
  let t ← if isConstraint then tableConstraint t else columnDef t
  pure (t, ← eatPunct ',')

/-- The rest of a `CREATE TABLE` statement after `TABLE`. -/
def createTable (temporary : Bool) : Cursor Table := do
  ifNotExists
  let name ← qualifiedName
  expectPunct '('
  let t ← repeatWhile tableElement { name, temporary }
  expectPunct ')'
  if t.fields.isEmpty then throw .emptyColumnList
  let t ← do
    if ← eatKeyword "WITHOUT" then
      expectKeyword "ROWID"
      pure { t with hasRowid := false }
    else pure t
  expectEnd
  pure t

/-- One indexed column, added to `cols`, then whether a comma follows. -/
def indexedColumn (cols : List Expr) : Cursor (List Expr × Bool) := do
  let c ← expression [] "indexed column"
  pure (cols ++ [c], ← eatPunct ',')

/-- The rest of a `CREATE INDEX` statement after `INDEX`. -/
def createIndex (unique : Bool) : Cursor Index := do
  ifNotExists
  let name ← qualifiedName
  expectKeyword "ON"
  let table ← expectName "table name"
  expectPunct '('
  let columns ← repeatWhile indexedColumn []
  expectPunct ')'
  let predicate ← do
    if ← eatKeyword "WHERE" then pure (some (← expression [] "WHERE clause")) else pure none
  expectEnd
  pure { name, table, unique, columns, predicate }

/-- A whole statement. -/
def statement : Cursor Statement := do
  expectKeyword "CREATE"
  if ← eatAnyKeyword ["TEMP", "TEMPORARY"] then
    expectKeyword "TABLE"
    return .table (← createTable true)
  if ← eatKeyword "TABLE" then
    return .table (← createTable false)
  if ← eatKeyword "UNIQUE" then
    expectKeyword "INDEX"
    return .index (← createIndex true)
  if ← eatKeyword "INDEX" then
    return .index (← createIndex false)
  unexpected "TABLE or INDEX"

end SqlSchema.Reader

namespace SqlSchema

/-- Reads a statement from its text. -/
def Statement.parse (s : String) : Except ReadError Statement :=
  (Reader.statement.run (tokenize s)).map Prod.fst

end SqlSchema
