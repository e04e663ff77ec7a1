import SqlSchema.Catalog.Create.Table

/-! # A table made from a query

`CREATE TABLE … AS SELECT` makes a table with a column for each result column of the query's first
select. The names of the query are checked against its `FROM` items first: a name must be a column of
exactly one of its tables (or the rowid of the only one), a name in double quotes may read as a
string, and a bare `true` or `false` is a constant. The catalog does not follow the columns of a
subquery or a view in the `FROM` clause, and takes a name it cannot place as one of theirs.

A column is named by its alias, else by the column it names, else by its text, where a text `true` or
`false` gives `columnN`; a name already taken gets `:1`, `:2`, … in place of any such ending. Its
affinity is that of the column it names, or of the type of a `CAST`; any other expression has none.

The stored text is `CREATE TABLE name(col TYPE,…)`, on one line when short and one column a line
otherwise; a name is quoted unless it is a plain ASCII word that is not a keyword, and the type word
is the one of the column's affinity. -/

namespace SqlSchema.Catalog

/-- How a column converts the values stored in it. -/
inductive Affinity where
  | blob
  | text
  | numeric
  | integer
  | real
  deriving DecidableEq, Repr

namespace Affinity

/-- The byte in lower case, for ASCII letters. -/
def lowerByte (b : UInt8) : UInt8 :=
  if 65 ≤ b && b ≤ 90 then b + 32 else b

/-- The affinity a declared type gives: by the last of the words `CHAR`, `CLOB`, `TEXT`, `BLOB`,
    `REAL`, `FLOA`, `DOUB` it holds, or `INTEGER` from the first `INT`; `NUMERIC` when it holds none. -/
def ofType (ty : String) : Affinity :=
  go ty.toUTF8.toList 0 .numeric
where
  /-- Scans the bytes, `h` holding the last four seen in lower case. -/
  go : List UInt8 → UInt32 → Affinity → Affinity
    | [], _, aff => aff
    | b :: rest, h, aff =>
      let h := (h <<< 8) + (lowerByte b).toUInt32
      if h == 0x63686172 || h == 0x636c6f62 || h == 0x74657874 then go rest h .text
      else if h == 0x626c6f62 && (aff == .numeric || aff == .real) then go rest h .blob
      else if (h == 0x7265616c || h == 0x666c6f61 || h == 0x646f7562) && aff == .numeric then
        go rest h .real
      else if h &&& 0xFFFFFF == 0x696e74 then .integer
      else go rest h aff

/-- The type word a stored table text gives a column of this affinity. -/
def typeWord : Affinity → String
  | .blob => ""
  | .text => "TEXT"
  | .numeric => "NUM"
  | .integer => "INT"
  | .real => "REAL"

end Affinity

/-- The affinity of a column, from its declared type. -/
def ColumnType.affinity : ColumnType → Affinity
  | .none => .blob
  | .standard "ANY" => .numeric
  | .standard "BLOB" => .blob
  | .standard "REAL" => .real
  | .standard "TEXT" => .text
  | .standard _ => .integer
  | .custom ty => Affinity.ofType ty

/-- An item of a query's `FROM` clause as the names of its result see it. -/
inductive Visible where
  /-- A table, and the name that qualifies its columns. -/
  | table (t : Table) (label : String)
  /-- A subquery, view or table function, whose columns are not followed, and its name if any. -/
  | unknown (label : Option String)

namespace Visible

/-- The name qualifies the item's columns. -/
def answersTo (v : Visible) (q : String) : Bool :=
  match v with
  | .table _ l => sameName l q
  | .unknown l => l.any (sameName · q)

/-- The column named `n` of the item, as its name and affinity: a column of a table, or its rowid
    when the table has one; any name of an item whose columns are not followed. -/
def column? (v : Visible) (n : String) : Option (String × Affinity) :=
  match v with
  | .table t _ =>
    match t.columns.find? (sameName ·.name n) with
    | some c => some (c.name, c.type.affinity)
    | none =>
      if isRowidName n && !t.withoutRowid then
        some ((t.rowidColumn.bind (t.columns[·]?)).map (·.name) |>.getD "rowid", .integer)
      else none
  | .unknown _ => some (n, .blob)

/-- The item is a table with a column named `n`. -/
def hasColumn (v : Visible) (n : String) : Bool :=
  match v with
  | .table t _ => (t.columnIndex? n).isSome
  | .unknown _ => false

/-- The columns of the item, in order; `none` when they are not followed. -/
def columns? (v : Visible) : Option (List (String × Affinity)) :=
  match v with
  | .table t _ => some (t.columns.map fun c => (c.name, c.type.affinity))
  | .unknown _ => none

end Visible

/-- The item of the catalog a `FROM` item stands for. -/
def Database.visible (c : Database) : FromItem → Visible
  | .derived a => .unknown a
  | .table s =>
    let found : Option Relation := match s.schema with
      | some d => (SchemaName.ofName? d).bind fun sn => c.relationIn? sn s.name
      | none => (c.relation? s.name).map (·.2)
    match found with
    | some (.table t) => .table t (s.asName.getD s.name)
    | _ => .unknown (some (s.asName.getD s.name))

/-- What a name of a query's result finds among the visible items. -/
inductive Lookup where
  | found (column : String × Affinity)
  | ambiguous
  | missing

/-- Looks up an unqualified name: a column of exactly one table, else of an item not followed, else
    the rowid of the only table. -/
def lookupName (vs : List Visible) (n : String) : Lookup :=
  match vs.filter (·.hasColumn n) with
  | [v] => match v.column? n with
    | some c => .found c
    | none => .missing
  | _ :: _ :: _ => .ambiguous
  | [] =>
    match vs.find? fun v => match v with | .unknown _ => true | _ => false with
    | some v => match v.column? n with
      | some c => .found c
      | none => .missing
    | none =>
      match vs with
      | [v] => match v.column? n with
        | some c => .found c
        | none => .missing
      | _ :: _ :: _ => if isRowidName n then .ambiguous else .missing
      | [] => .missing

/-- Looks up a name qualified by `q`. -/
def lookupQualified (vs : List Visible) (q n : String) : Lookup :=
  match vs.find? (·.answersTo q) with
  | some v => match v.column? n with
    | some c => .found c
    | none => .missing
  | none => .missing

namespace Parser

mutual

/-- Checks the names and calls of a result expression; `true` when a name error stops the check. -/
def checkResult (vs : List Visible) : Term → Parser Bool
  | .name n q off => do
    match lookupName vs n with
    | .found _ => return false
    | .ambiguous =>
      record { message := "ambiguous column name: " ++ n, offset := some off }
      return true
    | .missing =>
      if q = .double || (q = .bare && isTruthName n) then return false
      record { message := "no such column: " ++ n, offset := some off }
      return true
  | .dotted qs n off => do
    let q := qs.getLast?.getD ""
    match lookupQualified vs q n with
    | .found _ => return false
    | _ =>
      record { message := "no such column: " ++ ".".intercalate (qs ++ [n]), offset := some off }
      return true
  | .call fn args off => do
    match lookupFunction fn args.length with
    | .unknown => record { message := "no such function: " ++ fn, offset := some off }
    | .wrongArity =>
      record { message := "wrong number of arguments to function " ++ fn ++ "()", offset := some off }
    | .found .window _ =>
      record { message := "misuse of window function " ++ fn ++ "()", offset := some off }
    | .found _ _ => pure ()
    _ ← checkResults vs args
    return false
  | .unary t => checkResult vs t
  | .binary l r => do
    if ← checkResult vs l then return true
    checkResult vs r
  | .truth l r => do
    if ← checkResult vs l then return true
    checkResult vs r
  | .collate t _ => checkResult vs t
  | .cast t _ => checkResult vs t
  | .nullTest t => checkResult vs t
  | .between t lo hi => do
    if ← checkResult vs t then return true
    if ← checkResult vs lo then return true
    checkResult vs hi
  | .inList t items => do
    if ← checkResult vs t then return true
    checkResults vs items
  | .inQuery t => checkResult vs t
  | .caseOf s arms => do
    match s with
    | some t => if ← checkResult vs t then return true
    | none => pure ()
    checkResults vs arms
  | .vector items => checkResults vs items
  | .literal _ _ => pure false
  | .string _ _ => pure false
  | .param _ => pure false
  | .query => pure false
  | .raise => pure false

/-- Checks expressions in order until a name error stops the check. -/
def checkResults (vs : List Visible) : List Term → Parser Bool
  | [] => pure false
  | t :: ts => do
    if ← checkResult vs t then return true
    checkResults vs ts

end

end Parser

/-- The name and affinity of the column a result expression names, if it names one. -/
def columnNamed (vs : List Visible) : Term → Option (String × Affinity)
  | .collate t _ => columnNamed vs t
  | .name n _ _ =>
    match lookupName vs n with
    | .found c => some c
    | _ => none
  | .dotted qs n _ =>
    match lookupQualified vs (qs.getLast?.getD "") n with
    | .found c => some c
    | _ => none
  | _ => none

/-- The affinity of a result expression. -/
def resultAffinity (vs : List Visible) : Term → Affinity
  | .collate t _ => resultAffinity vs t
  | .cast _ ty => Affinity.ofType ty
  | t => ((columnNamed vs t).map (·.2)).getD .blob

/-- The columns a result column gives, as names before they are made unique and affinities; `none`
    when they cannot be told. -/
def resultNames (vs : List Visible) (position : Nat) : ResultColumn → Option (List (String × Affinity))
  | .all none => (vs.mapM Visible.columns?).map List.flatten
  | .all (some q) => (vs.find? (·.answersTo q)).bind Visible.columns?
  | .term t asName text =>
    let named := match asName with
      | some a => a
      | none =>
        match columnNamed vs t with
        | some (n, _) => n
        | none => text
    let name := if named.isEmpty || isTruthName named then "column" ++ toString (position + 1)
      else named
    some [(name, resultAffinity vs t)]

/-- The name without an ending `:` and the digits after it; the first character is always kept. -/
def withoutCount (n : String) : String :=
  let cs := n.toList
  let digits := min ((cs.reverse.takeWhile Char.isDigit).length) (cs.length - 1)
  let j := cs.length - 1 - digits
  if cs.length > 0 && cs[j]? == some ':' then String.ofList (cs.take j) else n

/-- The first of `base:k`, `base:(k+1)`, … not in `taken`, trying `fuel` of them at most, and the
    count it used. -/
def freshCount (taken : List String) (base : String) : Nat → Nat → String × Nat
  | 0, k => (base ++ ":" ++ toString k, k)
  | f + 1, k =>
    let candidate := base ++ ":" ++ toString k
    if taken.any (sameName · candidate) then freshCount taken base f (k + 1) else (candidate, k)

/-- The names made unique in order: a name already taken gets the next free `:k`. -/
def uniqueNames (names : List String) : List String :=
  names.foldl (fun taken n =>
    if taken.any (sameName · n) then
      taken ++ [(freshCount taken (withoutCount n) (taken.length + 1) 1).1]
    else taken ++ [n]) []

/-- The name as the stored text writes it: bare when it is a plain ASCII word that is not a keyword,
    else in double quotes with its double quotes doubled. -/
def quotedName (n : String) : String :=
  let plain := n.toList.all fun c => c.isAlphanum || c = '_'
  let bare := plain && !n.isEmpty && !(n.toList.head?.any Char.isDigit) &&
    !(keywords ++ ["OVER", "FILTER", "WINDOW"]).contains n.toUpper
  if bare then n else "\"" ++ String.join (n.toList.map fun c => if c = '"' then "\"\"" else c.toString) ++ "\""

/-- The length the engine counts for a name in the stored text. -/
def quotedLength (n : String) : Nat :=
  n.utf8ByteSize + (n.toList.filter (· = '"')).length + 2

/-- The stored text of the table `name` with the columns `cols`. -/
def tableText (name : String) (cols : List (String × Affinity)) : String :=
  let size := cols.foldr (fun (n, _) acc => quotedLength n + 5 + acc) 0 + quotedLength name
  let (first, sep, close) := if size < 50 then ("", ",", ")") else ("\n  ", ",\n  ", "\n)")
  let items := cols.map fun (n, a) =>
    quotedName n ++ (match a.typeWord with | "" => "" | w => " " ++ w)
  "CREATE TABLE " ++ quotedName name ++ "(" ++ first ++ sep.intercalate items ++ close

namespace Parser

/-- Finishes a table made from the query `q`: checks the query's names and makes the table with its
    stored text, unless an error was recorded. -/
def endTableAs (q : Query) : Parser (Option Table) := do
  let some t ← draft? | return none
  if ← failing then return none
  let c ← catalog
  match q.sources.find? fun s =>
      match s.schema with
      | some d => ((SchemaName.ofName? d).bind fun sn => c.relationIn? sn s.name).isNone
      | none => (c.relation? s.name).isNone with
  | some s =>
    recordMessage ("no such table: " ++ (match s.schema with | some d => d ++ "." ++ s.name | none => s.name))
    return none
  | none => pure ()
  let vs := q.scope.map c.visible
  for r in q.columns do
    match r with
    | .all none =>
      if vs.isEmpty then
        recordMessage "no tables specified"
        return none
    | .all (some n) =>
      if !vs.any (·.answersTo n) then
        recordMessage ("no such table: " ++ n)
        return none
    | .term e _ _ =>
      _ ← checkResult vs e
      if ← failing then return none
  let some cols := (q.columns.zipIdx.mapM fun (r, i) => resultNames vs i r).map List.flatten
    | return none
  let names := uniqueNames (cols.map (·.1))
  let cols := names.zip (cols.map (·.2))
  let columns := cols.map fun (n, a) => ({ name := n, type := columnType a.typeWord.toList } : Column)
  return some { t with columns, sql := some (tableText t.name cols) }

end Parser

end SqlSchema.Catalog
