import SqlSchema.Catalog.Resolve
import SqlSchema.Catalog.Reader.Term

/-! # Building a table

The actions of `CREATE TABLE`, in the order the engine takes them: the name is checked when the
column list opens; each column when the token after its type arrives; each constraint when it is
complete; the whole table when the statement ends. An action that finds an error records it; an
action on a table whose name was taken by `IF NOT EXISTS` does nothing.

A column's type is the text of its type words as written. A trailing `GENERATED ALWAYS`, which the
type words took in, is dropped; quotes around the whole type are dropped; a standard type (`INT`,
`INTEGER`, `REAL`, `TEXT`, `BLOB`, `ANY`) is kept by its upper-case name, any other text without its
quotes. A table's key is its rowid when it is a single `INTEGER` column not declared `DESC`; else the
key makes an index, as does every `UNIQUE` constraint, unless an index on the same columns and
collations is there already. -/

namespace SqlSchema.Catalog

open Reader

/-- The characters `cs` end with the ASCII word `w`, in any case. -/
def endsWithWord (cs : List Char) (w : String) : Bool :=
  (String.ofList (cs.drop (cs.length - w.length))).toLower == w && cs.length ≥ w.length

/-- A type without the `GENERATED ALWAYS` its words took in. -/
def trimGenerated (cs : List Char) : List Char :=
  if byteLength cs ≥ 16 && endsWithWord cs "always" then
    let cs := dropTrailingSpaces (cs.take (cs.length - 6))
    if byteLength cs ≥ 9 && endsWithWord cs "generated" then
      dropTrailingSpaces (cs.take (cs.length - 9))
    else cs
  else cs

/-- A text without the quotes around it, when it is quoted and holds no other quote. -/
def dropOuterQuotes (cs : List Char) : List Char :=
  match cs with
  | c :: r =>
    if isQuote c && r.length ≥ 1 && !(r.take (r.length - 1)).any isQuote then r.take (r.length - 1)
    else cs
  | [] => cs

/-- The type a column gets from the text of its type words. -/
def columnType (written : List Char) : ColumnType :=
  let cs := trimGenerated written
  if cs.isEmpty then .none
  else
    let cs := if byteLength cs ≥ 3 then dropOuterQuotes cs else cs
    let s := String.ofList cs
    match standardTypes.find? (sameName · s) with
    | some std => .standard std
    | none => .custom (dequote s)

/-- The expression is constant enough to be a default: it names no column, holds no parameter and
    no subquery. -/
def isConstantDefault : Term → Bool
  | .name n q _ => q = .bare && isTruthName n
  | .dotted _ _ _ => false
  | .param _ => false
  | .query => false
  | .inQuery _ => false
  | .raise => false
  | .call _ args _ => constantAll args
  | .unary t => isConstantDefault t
  | .binary l r => isConstantDefault l && isConstantDefault r
  | .truth l r => isConstantDefault l && isConstantDefault r
  | .collate t _ => isConstantDefault t
  | .cast t _ => isConstantDefault t
  | .nullTest t => isConstantDefault t
  | .between t lo hi => isConstantDefault t && isConstantDefault lo && isConstantDefault hi
  | .inList t items => isConstantDefault t && constantAll items
  | .caseOf s arms =>
    (match s with
      | some t => isConstantDefault t
      | none => true) && constantAll arms
  | .vector items => constantAll items
  | .literal _ _ => true
  | .string _ _ => true
where
  /-- All the expressions are constant enough to be a default. -/
  constantAll : List Term → Bool
    | [] => true
    | t :: ts => isConstantDefault t && constantAll ts

namespace Parser

/-- The schema an object goes into: the one its qualifier names, else the main schema. Records an
    error for an unknown qualifier. -/
def schemaOf (qualifier : Option Lexeme) : Parser (Option SchemaName) := do
  match qualifier with
  | none => pure (some .main)
  | some q =>
    match SchemaName.ofName? (dequote q.text) with
    | some sn => pure (some sn)
    | none =>
      record { message := "unknown database " ++ q.text, offset := some q.offset }
      pure none

/-- Starts a table or a view named `nameTok`, in the schema `qualifier` names when given. -/
def startTable (qualifier : Option Lexeme) (nameTok : Lexeme) (temp ifNotExists : Bool) :
    Parser Unit := do
  let some sn ← schemaOf qualifier | pure ()
  if temp && qualifier.isSome && sn != .temp then
    recordMessage "temporary table name must be unqualified"
    return
  let sn := if temp then .temp else sn
  let n := dequote nameTok.text
  modify fun s => { s with nameToken := some nameTok }
  if isReservedName n then
    recordMessage ("object name reserved for internal use: " ++ n)
    return
  let c ← catalog
  match c.relationIn? sn n with
  | some r =>
    if !ifNotExists then
      let kind := match r with
        | .view _ => "view"
        | .table _ => "table"
      record { message := kind ++ " " ++ nameTok.text ++ " already exists", offset := some nameTok.offset }
    return
  | none => pure ()
  if ((c.schema sn).index? n).isSome then
    recordMessage ("there is already an index named " ++ n)
    return
  modify fun s => { s with draft := some { name := n }, draftSchema := sn }

/-- Adds a column named `nameTok` whose type words are the text from `typeSpan`. -/
def addColumn (nameTok : Lexeme) (typeSpan : Option (Lexeme × Lexeme)) : Parser Unit := do
  let some t ← draft? | pure ()
  let written ← match typeSpan with
    | some (a, b) => do pure (← textBetween a b.stop).toList
    | none => pure []
  let n := dequote nameTok.text
  if t.columns.any (sameName ·.name n) then
    recordMessage ("duplicate column name: " ++ n)
  else
    updateDraft fun t => { t with columns := t.columns ++ [{ name := n, type := columnType written }] }

/-- Changes the last column of the table being built. -/
def updateLastColumn (f : Column → Column) : Parser Unit :=
  updateDraft fun t =>
    { t with columns := t.columns.modify (t.columns.length - 1) f }

/-- The last column of the table being built. -/
def lastColumn? : Parser (Option Column) := do
  return (← draft?).bind (·.columns.getLast?)

/-- Gives the last column a default. -/
def addDefault (value : Term) : Parser Unit := do
  let some col ← lastColumn? | pure ()
  if !isConstantDefault value then
    recordMessage ("default value of column [" ++ col.name ++ "] is not constant")
  else if col.generated.isSome then
    recordMessage "cannot use DEFAULT on a generated column"
  else updateLastColumn fun c => { c with hasDefault := true }

/-- Declares the last column `NOT NULL`. -/
def addNotNull : Parser Unit :=
  updateLastColumn fun c => { c with notNull := true }

/-- Marks the column at `i` as part of the key; a generated column may not be. -/
def markKeyColumn (i : Nat) : Parser Unit := do
  let some t ← draft? | pure ()
  updateDraft fun t => { t with columns := t.columns.modify i fun c => { c with inPrimaryKey := true } }
  match t.columns[i]? with
  | some c =>
    if c.generated.isSome then recordMessage "generated columns cannot be part of the PRIMARY KEY"
  | none => pure ()

/-- The `NULLS` placement written in a list of key items, which keys may not have. -/
def refuseNulls (items : List SortItem) : Parser Bool := do
  match items.findSome? (·.nulls) with
  | some n =>
    recordMessage ("unsupported use of NULLS " ++ n)
    return true
  | none => return false

/-- The key part an item of a constraint's column list makes, or `none` after recording an error. -/
def constraintKeyPart (t : Table) (item : SortItem) : Parser (Option KeyPart) := do
  let term := item.term.stringAsName
  let sc : Scope := { table := t, schema := .main, place := .indexKey }
  if ← sc.check term then return none
  match sc.columnOf? term with
  | none =>
    recordMessage "expressions prohibited in PRIMARY KEY and UNIQUE constraints"
    return none
  | some j =>
    let coll := match term with
      | .collate _ c => c
      | _ => ((t.columns[j]?).bind (·.collation)).getD "BINARY"
    if !knownCollation coll then
      recordMessage ("no such collation sequence: " ++ coll)
      return none
    return some { column := j, collation := coll, descending := item.descending }

/-- The key parts of a constraint's column list, or `none` after recording an error. -/
def constraintKeyParts (t : Table) : List SortItem → Parser (Option (List KeyPart))
  | [] => pure (some [])
  | i :: is => do
    match ← constraintKeyPart t i with
    | none => pure none
    | some p =>
      match ← constraintKeyParts t is with
      | some ps => pure (some (p :: ps))
      | none => pure none

/-- Makes the index of a `UNIQUE` or `PRIMARY KEY` constraint over `items`, or over the last column
    with direction `descending` when there are none. An index over the same columns and collations
    stands for it instead. -/
def addConstraintIndex (items : Option (List SortItem)) (descending : Bool) (origin : IndexOrigin) :
    Parser Unit := do
  if ← failing then return
  let some t ← draft? | pure ()
  let items ← match items with
    | some is => pure is
    | none =>
      match t.columns.getLast? with
      | some c => pure [{ term := .name c.name .other 0, descending, nulls := none }]
      | none => pure []
  if ← refuseNulls items then return
  let some keys ← constraintKeyParts t items | pure ()
  let same (i : Index) : Bool :=
    i.keys.length == keys.length &&
      (i.keys.zip keys).all fun (a, b) => a.column == b.column && sameName a.collation b.collation
  match t.indexes.findIdx? same with
  | some k =>
    if origin = .primaryKey then
      updateDraft fun t =>
        { t with indexes := t.indexes.modify k fun i => { i with origin := .primaryKey } }
  | none =>
    let name := "sqlite_autoindex_" ++ t.name ++ "_" ++ toString (t.indexes.length + 1)
    updateDraft fun t =>
      { t with indexes := t.indexes ++ [{ name, table := t.name, unique := true, keys, origin }] }

/-- Declares the table's key: the last column when `items` is `none`, else the columns of `items`. -/
def addPrimaryKey (items : Option (List SortItem)) (autoincrement descending : Bool) :
    Parser Unit := do
  let some t ← draft? | pure ()
  if t.hasPrimaryKey then
    recordMessage ("table \"" ++ t.name ++ "\" has more than one primary key")
    return
  updateDraft fun t => { t with hasPrimaryKey := true }
  let (count, keyColumn) ← match items with
    | none => do
      let i := t.columns.length - 1
      markKeyColumn i
      pure (1, some i)
    | some is => do
      let mut found : Option Nat := none
      for item in is do
        match item.term.skipCollate with
        | .name n _ _ | .string n _ =>
          match t.columnIndex? n with
          | some i =>
            markKeyColumn i
            found := some i
          | none => pure ()
        | _ => pure ()
      pure (is.length, found)
  let integerColumn := match keyColumn with
    | some i => (t.columns[i]?.map (·.type == .standard "INTEGER")).getD false
    | none => false
  if count = 1 && integerColumn && !descending then
    updateDraft fun t => { t with rowidColumn := keyColumn, autoincrement := autoincrement }
    match items with
    | some (item :: _) =>
      modify fun s => { s with rowidKeyDescending := item.descending }
      _ ← refuseNulls [item]
    | _ => pure ()
  else if autoincrement then
    recordMessage "AUTOINCREMENT is only allowed on an INTEGER PRIMARY KEY"
  else addConstraintIndex items descending .primaryKey

/-- Gives the last column a collation, which must be known. Constraint indexes made so far on that
    column take it. -/
def addCollation (tok : Lexeme) : Parser Unit := do
  let some t ← draft? | pure ()
  let c := dequote tok.text
  if !knownCollation c then
    recordMessage ("no such collation sequence: " ++ c)
    return
  let i := t.columns.length - 1
  updateLastColumn fun col => { col with collation := some c }
  updateDraft fun t =>
    { t with indexes := t.indexes.map fun ix =>
        match ix.keys with
        | k :: ks => if k.column == (i : Int) then { ix with keys := { k with collation := c } :: ks } else ix
        | [] => ix }

/-- Makes the last column generated from `value`, stored or virtual as `kind` says. -/
def addGenerated (value : Term) (kind : Option Lexeme) : Parser Unit := do
  let some col ← lastColumn? | pure ()
  let kindOk := match kind with
    | none => true
    | some k => k.text.toLower == "virtual" || k.text.toLower == "stored"
  if col.hasDefault || col.generated.isSome || !kindOk then
    recordMessage ("error in generated column \"" ++ col.name ++ "\"")
    return
  updateLastColumn fun c => { c with generated := some value }
  if col.inPrimaryKey then recordMessage "generated columns cannot be part of the PRIMARY KEY"

/-- Adds a `CHECK` constraint. -/
def addCheck (value : Term) : Parser Unit :=
  updateDraft fun t => { t with checks := t.checks ++ [value] }

/-- Checks a foreign key: the columns it comes from (the last column when `none`) and the number of
    columns it refers to in `target`. -/
def addForeignKey (fromCols : Option (List Lexeme)) (target : Lexeme) (toCols : Option (List Lexeme)) :
    Parser Unit := do
  let some t ← draft? | pure ()
  match fromCols with
  | none =>
    match toCols with
    | some cs =>
      if cs.length != 1 then
        let last := (t.columns.getLast?.map (·.name)).getD ""
        record { message := "foreign key on " ++ last ++ " should reference only one column of table " ++
          target.text, offset := some target.offset }
    | none => pure ()
  | some fs =>
    if toCols.any (·.length != fs.length) then
      recordMessage ("number of columns in foreign key does not match the number of columns in " ++
        "the referenced table")
    else
      match fs.find? (fun f => (t.columnIndex? (dequote f.text)).isNone) with
      | some f => recordMessage ("unknown column \"" ++ dequote f.text ++ "\" in foreign key definition")
      | none => pure ()

/-- The key of a table without rowid, each column once with its first collation. -/
def distinctKeyParts (ks : List KeyPart) : List KeyPart :=
  ks.foldl (fun kept k =>
    if kept.any fun a => a.column == k.column && sameName a.collation k.collation then kept
    else kept ++ [k]) []

/-- Finishes the table: the checks of `STRICT` and `WITHOUT ROWID`, then its `CHECK` constraints and
    generated columns. The finished table, unless an early check failed. -/
def endTable (strict withoutRowid : Bool) : Parser (Option Table) := do
  let some t ← draft? | return none
  let sn := (← get).draftSchema
  if strict then
    for c in t.columns do
      match c.type with
      | .custom ty =>
        recordMessage ("unknown datatype for " ++ t.name ++ "." ++ c.name ++ ": \"" ++ ty ++ "\"")
        return none
      | .none =>
        recordMessage ("missing datatype for " ++ t.name ++ "." ++ c.name)
        return none
      | .standard _ => pure ()
    updateDraft fun t =>
      { t with strict := true, columns := t.columns.mapIdx fun i c =>
          if c.inPrimaryKey && t.rowidColumn != some i then { c with notNull := true } else c }
  if withoutRowid then
    let some t ← draft? | return none
    if t.autoincrement then
      recordMessage "AUTOINCREMENT not allowed on WITHOUT ROWID tables"
      return none
    if !t.hasPrimaryKey then
      recordMessage ("PRIMARY KEY missing on table " ++ t.name)
      return none
    updateDraft fun t =>
      { t with withoutRowid := true, columns := t.columns.map fun c =>
          if c.inPrimaryKey then { c with notNull := true } else c }
    match t.rowidColumn with
    | some i =>
      let desc := (← get).rowidKeyDescending
      updateDraft fun t => { t with rowidColumn := none }
      let name := ((t.columns[i]?).map (·.name)).getD ""
      addConstraintIndex (some [{ term := .name name .other 0, descending := desc, nulls := none }])
        desc .primaryKey
      if ← failing then return none
    | none =>
      updateDraft fun t =>
        { t with indexes := t.indexes.map fun ix =>
            if ix.origin = .primaryKey then { ix with keys := distinctKeyParts ix.keys } else ix }
  let some t ← draft? | return none
  _ ← ({ table := t, schema := sn, place := .check } : Scope).checkAll t.checks
  for c in t.columns do
    match c.generated with
    | some g => _ ← ({ table := t, schema := sn, place := .generated } : Scope).check g
    | none => pure ()
  if !t.columns.isEmpty && t.columns.all (·.generated.isSome) then
    recordMessage "must have at least one non-generated column"
    return none
  return some t

end Parser

end SqlSchema.Catalog
