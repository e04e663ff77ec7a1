import SqlSchema.Catalog.Create.Index
import SqlSchema.Catalog.Create.FromQuery
import SqlSchema.Catalog.Change

/-! # Reading a statement

The statements that shape a catalog: `CREATE TABLE`, `CREATE INDEX`, `CREATE VIEW`,
`CREATE TRIGGER` and `DROP`, and queries, which change nothing but must name tables that exist. Each
part of a statement is read as the grammar has it and its action is taken once the token after it has
arrived, so an illegal token there is reported before the action's own error.

A table, view, index or trigger keeps the text of its statement from its name on: a table through
its closing parenthesis, or through its options when it has any; an index up to the token that ends
the statement; a view up to that token without the blanks before it; a trigger through its `END`. -/

namespace SqlSchema.Catalog

namespace Reader

open SqlSchema.Catalog.Parser

/-- Takes `IF NOT EXISTS` when it comes next. -/
def ifNotExists : Parser Bool := do
  if ← eatKeyword "IF" then
    _ ← expectKeyword "NOT"
    _ ← expectKeyword "EXISTS"
    return true
  return false

/-- Takes `IF EXISTS` when it comes next. -/
def ifExists : Parser Bool := do
  if ← eatKeyword "IF" then
    _ ← expectKeyword "EXISTS"
    return true
  return false

/-- Takes a name with an optional schema before it: the schema's token and the name's. -/
def qualifiedName : Parser (Option Lexeme × Lexeme) := do
  let first ← name
  if ← eatSymbol "." then return (some first, ← name)
  return (none, first)

/-- Takes an optional direction; whether it is `DESC`. -/
def direction : Parser Bool := do
  match ← eat (fun t => t.isKeyword "ASC" || t.isKeyword "DESC") with
  | some t => pure (t.isKeyword "DESC")
  | none => pure false

/-- Takes the optional `INITIALLY DEFERRED` or `INITIALLY IMMEDIATE` of a deferrable constraint. -/
def initially : Parser Unit := do
  if ← eatKeyword "INITIALLY" then
    _ ← expect (fun t => t.isKeyword "DEFERRED" || t.isKeyword "IMMEDIATE")

/-- Takes an optional `DEFERRABLE` or `NOT DEFERRABLE` clause. -/
def deferrable : Parser Unit := do
  if ← eatKeyword "NOT" then
    _ ← expectKeyword "DEFERRABLE"
    initially
  else if ← eatKeyword "DEFERRABLE" then initially

/-- Takes what a foreign key does when the row it refers to changes. -/
def referenceAction : Parser Unit := do
  if ← eatKeyword "SET" then
    _ ← expect (fun t => t.isKeyword "NULL" || t.isKeyword "DEFAULT")
  else if ← eatKeyword "NO" then
    _ ← expectKeyword "ACTION"
  else
    _ ← expect (fun t => t.isKeyword "CASCADE" || t.isKeyword "RESTRICT")

/-- Takes the clauses of a foreign key after the table it refers to, `fuel` at most. -/
def referenceClauses : Nat → Parser Unit
  | 0 => pure ()
  | f + 1 => do
    if ← eatKeyword "MATCH" then
      _ ← name
      referenceClauses f
    else if ← eatKeyword "ON" then
      _ ← expect (·.isKeywordIn ["INSERT", "DELETE", "UPDATE"])
      referenceAction
      referenceClauses f

/-- Takes the columns a foreign key refers to, when a list of them follows. -/
def referencedColumns (f : Nat) : Parser (Option (List Lexeme)) := do
  if ← eatSymbol "(" then some <$> nameList f else pure none

/-- Reads a literal of a `DEFAULT` clause. -/
def defaultLiteral (f : Nat) : Parser Term := do
  if ← next (fun t => t.kind = .integer || t.kind = .float || t.kind = .blob ||
      t.kind = .string || t.kind = .separated || t.isKeyword "NULL" || t.isKeywordIn clockWords) then
    primary f
  else unexpected

/-- Reads the value of a `DEFAULT` clause: an expression in parentheses, a signed literal, or a
    name, which stands for its own text. -/
def defaultValue (f : Nat) : Parser Term := do
  if ← eatSymbol "(" then
    let e ← termAt f 1
    _ ← expectSymbol ")"
    return e
  if ← eatSymbol "+" then return ← defaultLiteral f
  if ← eatSymbol "-" then return .unary (← defaultLiteral f)
  if ← next (·.isKeywordIn clockWords) then return ← defaultLiteral f
  match ← eat (·.isIdOrIndexed) with
  | some t => return .string t.text t.offset
  | none => defaultLiteral f

/-- Reads the expression of a generated column and its optional kind, then makes the last column
    generated. -/
def generatedColumn (f : Nat) : Parser Unit := do
  _ ← expectSymbol "("
  let e ← termAt f 1
  _ ← expectSymbol ")"
  let kind ← eat (fun t => t.isId && !t.isKeyword "GENERATED")
  _ ← peek?
  addGenerated e kind

/-- Reads the constraints of the last column and takes their actions, `fuel` at most. -/
def columnConstraints : Nat → Parser Unit
  | 0 => pure ()
  | f + 1 => do
    let some t ← peek? | pure ()
    if t.isKeyword "CONSTRAINT" then
      _ ← shift
      _ ← name
    else if t.isKeyword "DEFAULT" then
      _ ← shift
      let v ← defaultValue f
      _ ← peek?
      addDefault v
    else if t.isKeyword "NULL" then
      _ ← shift
      conflictClause
    else if t.isKeyword "NOT" then
      _ ← shift
      if ← eatKeyword "NULL" then
        conflictClause
        _ ← peek?
        addNotNull
      else
        _ ← expectKeyword "DEFERRABLE"
        initially
    else if t.isKeyword "PRIMARY" then
      _ ← shift
      _ ← expectKeyword "KEY"
      let desc ← direction
      conflictClause
      let auto ← eatKeyword "AUTOINCREMENT"
      _ ← peek?
      addPrimaryKey none auto desc
    else if t.isKeyword "UNIQUE" then
      _ ← shift
      conflictClause
      _ ← peek?
      addConstraintIndex none false .unique
    else if t.isKeyword "CHECK" then
      _ ← shift
      _ ← expectSymbol "("
      let e ← termAt f 1
      _ ← expectSymbol ")"
      _ ← peek?
      addCheck e
    else if t.isKeyword "REFERENCES" then
      _ ← shift
      let target ← name
      let cols ← referencedColumns f
      referenceClauses f
      _ ← peek?
      addForeignKey none target cols
    else if t.isKeyword "DEFERRABLE" then
      _ ← shift
      initially
    else if t.isKeyword "COLLATE" then
      _ ← shift
      let c ← expect (·.isTypeWord)
      _ ← peek?
      addCollation c
    else if t.isKeyword "GENERATED" then
      _ ← shift
      _ ← expectKeyword "ALWAYS"
      _ ← expectKeyword "AS"
      generatedColumn f
    else if t.isKeyword "AS" then
      _ ← shift
      generatedColumn f
    else return
    columnConstraints f

/-- Reads a column definition: its name, its type and its constraints. -/
def columnDef (f : Nat) : Parser Unit := do
  let n ← name
  let ty ← typeToken
  _ ← peek?
  addColumn n ty
  columnConstraints f

/-- A table constraint starts with the token. -/
def startsTableConstraint (t : Lexeme) : Bool :=
  t.isKeywordIn ["CONSTRAINT", "PRIMARY", "UNIQUE", "CHECK", "FOREIGN"]

/-- Reads one table constraint and takes its action. -/
def tableConstraint (f : Nat) : Parser Unit := do
  let some t ← peek? | unexpected
  if t.isKeyword "CONSTRAINT" then
    _ ← shift
    _ ← name
  else if t.isKeyword "PRIMARY" then
    _ ← shift
    _ ← expectKeyword "KEY"
    _ ← expectSymbol "("
    let items ← sortList f
    let auto ← eatKeyword "AUTOINCREMENT"
    _ ← expectSymbol ")"
    conflictClause
    _ ← peek?
    addPrimaryKey (some items) auto false
  else if t.isKeyword "UNIQUE" then
    _ ← shift
    _ ← expectSymbol "("
    let items ← sortList f
    _ ← expectSymbol ")"
    conflictClause
    _ ← peek?
    addConstraintIndex (some items) false .unique
  else if t.isKeyword "CHECK" then
    _ ← shift
    _ ← expectSymbol "("
    let e ← termAt f 1
    _ ← expectSymbol ")"
    conflictClause
    _ ← peek?
    addCheck e
  else if t.isKeyword "FOREIGN" then
    _ ← shift
    _ ← expectKeyword "KEY"
    _ ← expectSymbol "("
    let cols ← nameList f
    _ ← expectKeyword "REFERENCES"
    let target ← name
    let toCols ← referencedColumns f
    referenceClauses f
    deferrable
    _ ← peek?
    addForeignKey (some cols) target toCols
  else unexpected

/-- Reads table constraints, with or without commas between them, `fuel` at most. -/
def tableConstraints : Nat → Parser Unit
  | 0 => pure ()
  | f + 1 => do
    tableConstraint f
    if ← eatSymbol "," then tableConstraints f
    else if ← next startsTableConstraint then tableConstraints f

/-- Reads column definitions separated by commas, then the table constraints after them. -/
def columnDefs : Nat → Parser Unit
  | 0 => pure ()
  | f + 1 => do
    columnDef f
    if ← eatSymbol "," then
      if ← next startsTableConstraint then tableConstraints f
      else columnDefs f

/-- Reads one table option, when one comes next: whether it declares the table without rowid, and
    whether strict. An unknown option is recorded as an error and declares nothing. -/
def tableOption : Parser (Option (Bool × Bool)) := do
  if ← eatKeyword "WITHOUT" then
    let t ← name
    _ ← peek?
    if t.text.length == 5 && sameName t.text "rowid" then return some (true, false)
    recordMessage ("unknown table option: " ++ t.text)
    return some (false, false)
  match ← eat (·.isName) with
  | some t =>
    _ ← peek?
    if t.text.length == 6 && sameName t.text "strict" then return some (false, true)
    recordMessage ("unknown table option: " ++ t.text)
    return some (false, false)
  | none => return none

/-- Reads the table options after a comma, `fuel` at most; what they declare. -/
def moreTableOptions : Nat → Parser (Bool × Bool)
  | 0 => pure (false, false)
  | f + 1 => do
    if ← eatSymbol "," then
      let some (w, s) ← tableOption | unexpected
      let (w', s') ← moreTableOptions f
      return (w || w', s || s')
    return (false, false)

/-- Reads the options after a table's column list: whether they declare it without rowid, and
    whether strict. -/
def tableOptions (f : Nat) : Parser (Bool × Bool) := do
  let some (w, s) ← tableOption | return (false, false)
  let (w', s') ← moreTableOptions f
  return (w || w', s || s')

/-- The character index where the stored text of a statement ends when `look` is the token after
    it: before a `;`, after any other token, or at the end of the text. -/
def stopBefore (look : Option Lexeme) : Parser Nat := do
  match look with
  | some l => pure (if l.isSymbol ";" then l.pos else l.stop)
  | none => textEnd

/-- Reads the rest of `CREATE TABLE` after the keyword `TABLE`. -/
def createTable (f : Nat) (temp : Bool) : Parser Change := do
  let ine ← ifNotExists
  let (q, nameTok) ← qualifiedName
  _ ← peek?
  startTable q nameTok temp ine
  if ← eatKeyword "AS" then
    let q ← query f
    _ ← peek?
    let some t ← endTableAs q | return .nothing
    return .add (← get).draftSchema (.table t)
  _ ← expectSymbol "("
  columnDefs f
  let close ← expectSymbol ")"
  let (withoutRowid, strict) ← tableOptions f
  let look ← peek?
  let some t ← endTable strict withoutRowid | return .nothing
  let stop ← if withoutRowid || strict then stopBefore look else pure close.stop
  let some nt := (← get).nameToken | return .nothing
  let sql := "CREATE TABLE " ++ (← textBetween nt stop)
  return .add (← get).draftSchema (.table { t with sql := some sql })

/-- Reads the rest of `CREATE INDEX` after the keyword `INDEX`. -/
def createIndexStatement (f : Nat) (unique : Bool) : Parser Change := do
  let ine ← ifNotExists
  let (q, nameTok) ← qualifiedName
  _ ← expectKeyword "ON"
  let tableTok ← name
  _ ← expectSymbol "("
  let items ← sortList f
  _ ← expectSymbol ")"
  let predicate ← if ← eatKeyword "WHERE" then some <$> termAt f 1 else pure none
  let stop ← stopBefore (← peek?)
  match ← createIndex q nameTok tableTok items unique ine predicate stop with
  | some (sn, i) => return .add sn (.index i)
  | none => return .nothing

/-- Reads the rest of `CREATE VIEW` after the keyword `VIEW`. A view may hold no parameter, and a
    view of the main schema may read only tables of that schema. -/
def createView (f : Nat) (temp : Bool) : Parser Change := do
  let ine ← ifNotExists
  let (q, nameTok) ← qualifiedName
  if ← eatSymbol "(" then _ ← nameList f
  _ ← expectKeyword "AS"
  let body ← query f
  let look ← peek?
  if (← get).parameters > 0 then
    recordMessage "parameters are not allowed in views"
    return .nothing
  startTable q nameTok temp ine
  if ← failing then return .nothing
  let some _ ← draft? | return .nothing
  let sn := (← get).draftSchema
  if sn = .main then
    let foreign := body.sources.findSome? fun s =>
      s.schema.filter fun d => SchemaName.ofName? d != some .main
    match foreign with
    | some d =>
      record { message := "view " ++ nameTok.text ++ " cannot reference objects in database " ++ d,
               offset := some nameTok.offset }
      return .nothing
    | none => pure ()
  let text := dropTrailingSpaces (← textBetween nameTok (← stopBefore look)).toList
  return .add sn (.view { name := dequote nameTok.text, sql := "CREATE VIEW " ++ String.ofList text })

/-- When a trigger fires. -/
inductive Timing where
  | before
  | after
  | insteadOf
  deriving DecidableEq

/-- Reads names separated by commas, `fuel` at most. -/
def idList : Nat → Parser Unit
  | 0 => pure ()
  | f + 1 => do
    _ ← name
    if ← eatSymbol "," then idList f

/-- Skips the tokens of a command of a trigger's body through its `;`, `fuel` at most. -/
def skipCommand : Nat → Parser Unit
  | 0 => unexpected
  | f + 1 => do
    let t ← shift
    if !t.isSymbol ";" then skipCommand f

/-- Skips the commands of a trigger's body, each ended by `;`, up to its `END`. -/
def triggerBody : Nat → Parser Unit
  | 0 => pure ()
  | f + 1 => do
    _ ← peek?
    _ ← expect (·.isKeywordIn ["UPDATE", "INSERT", "REPLACE", "DELETE", "SELECT", "VALUES", "WITH"])
    skipCommand f
    if !(← next (·.isKeyword "END")) then triggerBody f

/-- Checks a new trigger named `nameTok` on the table `target`; the schema it goes into and the
    name of its table, unless an error was recorded or it exists and `ifNotExists` is set. -/
def beginTrigger (temp ifNotExists : Bool) (q : Option Lexeme) (nameTok : Lexeme) (timing : Timing)
    (target : Option Lexeme × Lexeme) : Parser (Option (SchemaName × String)) := do
  let (tableQ, tableTok) := target
  let named ← if temp then
      if q.isSome then
        recordMessage "temporary trigger may not have qualified name"
        return none
      pure SchemaName.temp
    else
      match ← schemaOf q with
      | some sn => pure sn
      | none => return none
  let c ← catalog
  let tn := dequote tableTok.text
  let qn := tableQ.map (dequote ·.text)
  let sn : SchemaName := match q, qn, c.relation? tn with
    | none, none, some (.temp, _) => .temp
    | _, _, _ => named
  if sn = .main then
    match qn with
    | some d =>
      if SchemaName.ofName? d != some .main then
        record { message := "trigger " ++ nameTok.text ++ " cannot reference objects in database " ++ d,
                 offset := some nameTok.offset }
        return none
    | none => pure ()
  let found : Option Relation := match sn, qn with
    | .main, _ => c.relationIn? .main tn
    | .temp, some d => (SchemaName.ofName? d).bind fun s => c.relationIn? s tn
    | .temp, none => (c.relation? tn).map (·.2)
  let shown := match sn, qn with
    | .main, _ => "main." ++ tn
    | .temp, some d => d ++ "." ++ tn
    | .temp, none => tn
  let some rel := found
    | recordMessage ("no such table: " ++ shown)
      return none
  let n := dequote nameTok.text
  if isReservedName n then
    recordMessage ("object name reserved for internal use: " ++ n)
    return none
  if ((c.schema sn).trigger? n).isSome then
    if !ifNotExists then
      record { message := "trigger " ++ nameTok.text ++ " already exists", offset := some nameTok.offset }
    return none
  let relName := match rel with
    | .table t => t.name
    | .view v => v.name
  if isReservedName relName then
    recordMessage "cannot create trigger on system table"
    return none
  let place := match sn, qn with
    | .temp, some d => d ++ "." ++ tn
    | _, _ => tn
  match rel, timing with
  | .view _, .before =>
    recordMessage ("cannot create BEFORE trigger on view: " ++ place)
    return none
  | .view _, .after =>
    recordMessage ("cannot create AFTER trigger on view: " ++ place)
    return none
  | .table _, .insteadOf =>
    recordMessage ("cannot create INSTEAD OF trigger on table: " ++ place)
    return none
  | _, _ => return some (sn, tn)

/-- Reads the rest of `CREATE TRIGGER` after the keyword `TRIGGER`. -/
def createTrigger (f : Nat) (temp : Bool) : Parser Change := do
  let ine ← ifNotExists
  let (q, nameTok) ← qualifiedName
  let timing ← if ← eatKeyword "BEFORE" then pure Timing.before
    else if ← eatKeyword "AFTER" then pure Timing.after
    else if ← eatKeyword "INSTEAD" then
      _ ← expectKeyword "OF"
      pure Timing.insteadOf
    else pure Timing.before
  if ← eatKeyword "UPDATE" then
    if ← eatKeyword "OF" then idList f
  else
    _ ← expect (fun t => t.isKeyword "DELETE" || t.isKeyword "INSERT")
  _ ← expectKeyword "ON"
  let target ← qualifiedName
  if ← eatKeyword "FOR" then
    _ ← expectKeyword "EACH"
    _ ← expectKeyword "ROW"
  if ← eatKeyword "WHEN" then _ ← termAt f 1
  _ ← peek?
  let begun ← beginTrigger temp ine q nameTok timing target
  _ ← expectKeyword "BEGIN"
  triggerBody f
  let endTok ← expectKeyword "END"
  _ ← peek?
  let some (sn, table) := begun | return .nothing
  let sql := "CREATE TRIGGER " ++ (← textBetween nameTok endTok.stop)
  return .add sn (.trigger { name := dequote nameTok.text, table, sql })

/-- Reads the rest of `CREATE` after the keyword. -/
def create (f : Nat) : Parser Change := do
  let temp := (← eat (fun t => t.isKeyword "TEMP" || t.isKeyword "TEMPORARY")).isSome
  if ← eatKeyword "TABLE" then createTable f temp
  else if ← eatKeyword "VIEW" then createView f temp
  else if ← eatKeyword "TRIGGER" then createTrigger f temp
  else if temp then unexpected
  else
    let unique ← eatKeyword "UNIQUE"
    _ ← expectKeyword "INDEX"
    createIndexStatement f unique

/-- The engine's own tables may not be dropped, its statistics tables apart. -/
def mayNotBeDropped (n : String) : Bool :=
  isReservedName n && !sameName (String.ofList ((n.toList.drop 7).take 4)) "stat" &&
    !sameName (String.ofList ((n.toList.drop 7).take 10)) "parameters"

/-- What `look` finds in the schema `qualifier` names, else in the temporary schema and then the main
    one; with the schema it was found in. -/
def inSchemas {α : Type} (qualifier : Option String) (look : SchemaName → Option α) : Option (SchemaName × α) :=
  match qualifier with
  | some d => (SchemaName.ofName? d).bind fun sn => (look sn).map (sn, ·)
  | none =>
    match look .temp with
    | some a => some (.temp, a)
    | none => (look .main).map (.main, ·)

/-- Reads the rest of `DROP` after the keyword. -/
def drop : Parser Change := do
  let kind ← expect (·.isKeywordIn ["TABLE", "VIEW", "INDEX", "TRIGGER"])
  let ie ← ifExists
  let (q, nameTok) ← qualifiedName
  _ ← peek?
  let c ← catalog
  let n := dequote nameTok.text
  let qn := q.map (dequote ·.text)
  let shown := match qn with
    | some d => d ++ "." ++ n
    | none => n
  if kind.isKeyword "INDEX" then
    match inSchemas qn fun sn => (c.schema sn).index? n with
    | some (sn, _) => return .dropIndex sn n
    | none =>
      if !ie then recordMessage ("no such index: " ++ shown)
      return .nothing
  if kind.isKeyword "TRIGGER" then
    match inSchemas qn fun sn => (c.schema sn).trigger? n with
    | some (sn, _) => return .dropTrigger sn n
    | none =>
      if !ie then recordMessage ("no such trigger: " ++ shown)
      return .nothing
  let isView := kind.isKeyword "VIEW"
  let found := match qn with
    | some d => (SchemaName.ofName? d).bind fun sn => (c.relationIn? sn n).map (sn, ·)
    | none => c.relation? n
  match found with
  | none =>
    if !ie then recordMessage ((if isView then "no such view: " else "no such table: ") ++ shown)
    return .nothing
  | some (sn, rel) =>
    match rel with
    | .table t =>
      if mayNotBeDropped t.name then
        recordMessage ("table " ++ t.name ++ " may not be dropped")
        return .nothing
      if isView then
        recordMessage ("use DROP TABLE to delete table " ++ t.name)
        return .nothing
      return .dropRelation sn t.name
    | .view v =>
      if !isView then
        recordMessage ("use DROP VIEW to delete view " ++ v.name)
        return .nothing
      return .dropRelation sn v.name

/-- Reads a query, whose tables must exist. -/
def select (f : Nat) : Parser Change := do
  let body ← query f
  _ ← peek?
  let c ← catalog
  let missing := body.sources.find? fun s =>
    match s.schema with
    | some d => ((SchemaName.ofName? d).bind fun sn => c.relationIn? sn s.name).isNone
    | none => (c.relation? s.name).isNone
  match missing with
  | some s =>
    let shown := match s.schema with
      | some d => d ++ "." ++ s.name
      | none => s.name
    recordMessage ("no such table: " ++ shown)
  | none => pure ()
  return .nothing

/-- Reads one statement, which must be followed by `;` or the end of the text. What it does, and the
    character index where the rest of the text starts. -/
def statement (f : Nat) : Parser (Change × Nat) := do
  let some t ← peek? | return (.nothing, ← textEnd)
  let change ← if t.isKeyword "CREATE" then do
      _ ← shift
      create f
    else if t.isKeyword "DROP" then do
      _ ← shift
      drop
    else if startsQuery t then select f
    else unexpected
  match ← peek? with
  | some t =>
    if t.isSymbol ";" then
      let semi ← shift
      return (change, semi.stop)
    else throw (syntaxError (some t))
  | none =>
    match (← get).pending with
    | some e => throw e
    | none => return (change, ← textEnd)

end Reader

end SqlSchema.Catalog
