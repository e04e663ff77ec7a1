import SqlSchema.Catalog.Create.Table

/-! # Building an index

The action of `CREATE INDEX`, taken when the statement ends. It finds the table (temporary tables
first, and an index on a temporary table is temporary), refuses the engine's own tables and views,
checks the index name against the tables and indexes of its schema, then checks the predicate and
each key. A key names a column or is an expression; its collation is the one written at its top, else
its column's, else `BINARY`. The parts that identify a row follow the keys: the rowid, or the key
columns of a table without rowid that the index does not hold already. -/

namespace SqlSchema.Catalog

open Reader

namespace Parser

/-- The key part an item of an index's column list makes, or `none` after recording an error. -/
def indexKeyPart (sc : Scope) (item : SortItem) : Parser (Option KeyPart) := do
  let term := item.term.stringAsName
  if ← sc.check term then return none
  let column := sc.columnOf? term
  let coll := match term with
    | .collate _ c => c
    | _ => ((column.bind fun j => sc.table.columns[j]?).bind (·.collation)).getD "BINARY"
  if !knownCollation coll then
    recordMessage ("no such collation sequence: " ++ coll)
    return none
  let col : Int := match column with
    | some j => j
    | none => -2
  return some { column := col, collation := coll, descending := item.descending }

/-- The key parts of an index's column list, or `none` after recording an error. -/
def indexKeyParts (sc : Scope) : List SortItem → Parser (Option (List KeyPart))
  | [] => pure (some [])
  | i :: is => do
    match ← indexKeyPart sc i with
    | none => pure none
    | some p =>
      match ← indexKeyParts sc is with
      | some ps => pure (some (p :: ps))
      | none => pure none

/-- The parts that identify a row of `t` in an index with keys `keys`. -/
def rowParts (t : Table) (keys : List KeyPart) : List KeyPart :=
  if t.withoutRowid then
    match t.primaryIndex? with
    | some pk =>
      pk.keys.filter fun k =>
        !keys.any fun k' => k'.column == k.column && sameName k'.collation k.collation
    | none => []
  else [{ column := -1, collation := "BINARY", descending := false }]

/-- The table an object of schema `sn` is made on: a main object needs a table of the main schema, a
    temporary one any table, temporary ones first. Records the error when there is none. -/
def tableFor (sn : SchemaName) (tableTok : Lexeme) : Parser (Option (SchemaName × Relation)) := do
  let n := dequote tableTok.text
  let c ← catalog
  match sn with
  | .main =>
    match c.relationIn? .main n with
    | some r => pure (some (.main, r))
    | none =>
      recordMessage ("no such table: main." ++ n)
      pure none
  | .temp =>
    match c.relation? n with
    | some found => pure (some found)
    | none =>
      recordMessage ("no such table: " ++ n)
      pure none

/-- Creates an index named `nameTok` (qualified by `qualifier`) on the table `tableTok`. The stored
    text runs from the name to `stop`. The new index and its schema, unless an error was recorded or
    the index exists and `ifNotExists` is set. -/
def createIndex (qualifier : Option Lexeme) (nameTok tableTok : Lexeme) (items : List SortItem)
    (unique ifNotExists : Bool) (predicate : Option Term) (stop : Nat) :
    Parser (Option (SchemaName × Index)) := do
  if ← failing then return none
  if ← refuseNulls items then return none
  let some named ← schemaOf qualifier | return none
  let c ← catalog
  let sn := match qualifier, c.relation? (dequote tableTok.text) with
    | none, some (.temp, _) => .temp
    | _, _ => named
  let some (tsn, rel) ← tableFor sn tableTok | return none
  let t ← match rel with
    | .table t => pure t
    | .view _ => pure ({ name := "" } : Table)
  if sn = .temp && tsn != .temp then
    recordMessage ("cannot create a TEMP index on non-TEMP table \"" ++ t.name ++ "\"")
    return none
  match rel with
  | .table t =>
    if isReservedName t.name then
      recordMessage ("table " ++ t.name ++ " may not be indexed")
      return none
  | .view _ =>
    recordMessage "views may not be indexed"
    return none
  let n := dequote nameTok.text
  if isReservedName n then
    recordMessage ("object name reserved for internal use: " ++ n)
    return none
  if (c.relationIn? sn n).isSome then
    recordMessage ("there is already a table named " ++ n)
    return none
  if ((c.schema sn).index? n).isSome then
    if !ifNotExists then recordMessage ("index " ++ n ++ " already exists")
    return none
  match predicate with
  | some p => _ ← ({ table := t, schema := tsn, place := .indexPredicate } : Scope).check p
  | none => pure ()
  let some keys ← indexKeyParts { table := t, schema := tsn, place := .indexKey } items
    | return none
  let text ← textBetween nameTok stop
  let sql := "CREATE" ++ (if unique then " UNIQUE" else "") ++ " INDEX " ++ text
  let index : Index :=
    { name := n, table := t.name, unique := unique, isPartial := predicate.isSome, keys := keys
      rowParts := rowParts t keys, sql := some sql }
  return some (sn, index)

end Parser

end SqlSchema.Catalog
