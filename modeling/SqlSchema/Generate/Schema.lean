import SqlSchema.Text.Quoted

/-! # Generated schemas

A byte string determines a schema of one table and up to three indexes on it, written in the many
ways the schema language allows: names bare, double-quoted, bracketed or backquoted, declared types
with sizes, inline or table-level primary keys, `AUTOINCREMENT`, `WITHOUT ROWID`, defaults of every
form, `UNIQUE`, `CHECK` and foreign key constraints, and index columns that are names, ordered or
collated names, calls, sums, or names written as strings, with an optional predicate. Every schema
is one that the schema language accepts.

The generator draws its choices from a source (`Source`): integers in a range, chances and single
bits. The source is a parameter; `Generate/Draw` gives the one that draws from a byte string. -/

namespace SqlSchema.Generate

/-- A source of choices, as the generator draws them. -/
structure Source where
  /-- What is left to draw from. -/
  State : Type
  /-- An integer in `[lo, hi]`, drawn as a type `width` bytes wide. -/
  intIn : (lo hi width : Nat) → StateM State Nat
  /-- True with the chance `n / d`. -/
  ratio : (n d : Nat) → StateM State Bool
  /-- One truth value. -/
  bit : StateM State Bool

/-- One of the values `xs`, which are not empty: the one at an index drawn in range. -/
def Source.choose (src : Source) {α : Type} [Inhabited α] (xs : List α) : StateM src.State α := do
  let i ← src.intIn 0 (xs.length - 1) 8
  pure (xs.getD i default)

section
variable (src : Source)

/-- A generated name, and how it is written in statement text. -/
structure Name where
  name : String
  written : String
  deriving Inhabited, Repr

/-- The declared types a column may get. -/
def typeNames : List String :=
  ["", "INTEGER", "TEXT", "REAL", "BLOB", "NUMERIC", "VARCHAR(10)", "DECIMAL(10,2)",
    "UNSIGNED BIG INT"]

/-- The defaults a column may get. -/
def defaults : List String :=
  ["0", "-1", "+2.5", "'x'", "'it''s'", "NULL", "X'00FF'", "(1 + 2)", "CURRENT_TIMESTAMP"]

/-- The `i`-th name after `stem`, in one of four spellings. -/
def name (stem : String) (i : Nat) : StateM src.State Name := do
  let tick := String.singleton (Char.ofNat 0x60)
  match ← src.intIn 0 3 1 with
  | 0 =>
    let n := stem ++ toString i
    pure ⟨n, n⟩
  | 1 =>
    let n := stem ++ " \"" ++ toString i ++ "\""
    pure ⟨n, quoteIdentifier n⟩
  | 2 =>
    let n := stem ++ " " ++ toString i
    pure ⟨n, "[" ++ n ++ "]"⟩
  | _ =>
    let n := stem ++ tick ++ toString i
    pure ⟨n, Quoted.enquote (Char.ofNat 0x60) n⟩

/-- A generated table: its name, its statement, and its columns. -/
structure Table where
  name : String
  sql : String
  columns : List Name
  deriving Inhabited, Repr

/-- Appends `more` to `s` when a draw of chance `n / d` says so. -/
def withChance (n d : Nat) (s : String) (more : StateM src.State String) : StateM src.State String := do
  if ← src.ratio n d then pure (s ++ (← more)) else pure s

/-- The definition of the `i`-th column. -/
def columnDef (keyStyle : Nat) (auto : Bool) (i : Nat) (c : Name) : StateM src.State String := do
  let ty ← if auto && i == 0 then pure "INTEGER" else src.choose typeNames
  let d := c.written ++ (if ty.isEmpty then "" else " " ++ ty)
  let d := if keyStyle == 1 && i == 0 then
      d ++ " PRIMARY KEY" ++ (if auto then " AUTOINCREMENT" else "")
    else d
  let d ← withChance src 1 3 d (pure " NOT NULL")
  let d ← withChance src 1 3 d (do pure (" DEFAULT " ++ (← src.choose defaults)))
  let d ← withChance src 1 6 d (pure " UNIQUE")
  withChance src 1 6 d (pure (" CHECK (" ++ c.written ++ " IS NOT 42)"))

/-- A table of one to six columns. The key is absent (style 0), inline on the first column
    (style 1, possibly with `AUTOINCREMENT`), or a table constraint over the last columns in reverse
    (style 2). -/
def table : StateM src.State Table := do
  let t ← name src "t" 0
  let count ← src.intIn 1 6 8
  let columns ← (List.range count).mapM (name src "c")
  let keyStyle ← src.intIn 0 2 1
  let auto ← if keyStyle == 1 then src.ratio 1 3 else pure false
  let withoutRowid ← if keyStyle != 0 && !auto then src.ratio 1 4 else pure false
  let defs ← (List.range count).zip columns |>.mapM fun (i, c) => columnDef src keyStyle auto i c
  let defs ← do
    if keyStyle == 2 then
      let k ← src.intIn 1 count 8
      let key := (columns.reverse.take k).map (·.written)
      pure (defs ++ ["PRIMARY KEY (" ++ ", ".intercalate key ++ ")"])
    else pure defs
  let defs ← do
    if ← src.ratio 1 5 then
      pure (defs ++ ["CONSTRAINT fk FOREIGN KEY (" ++ (columns.headD default).written ++
        ") REFERENCES parent (id) ON DELETE CASCADE"])
    else pure defs
  let sql := "CREATE TABLE " ++ t.written ++ " (\n  " ++ ",\n  ".intercalate defs ++ "\n)" ++
    (if withoutRowid then " WITHOUT ROWID" else "")
  pure { name := t.name, sql, columns }

/-- The name of the column written `written`, as the inside of a string: each apostrophe doubled. -/
def columnLiteral (t : Table) (written : String) : String :=
  match t.columns.find? (·.written == written) with
  | some c => String.ofList (Quoted.double (Char.ofNat 0x27) c.name.toList)
  | none => ""

/-- One indexed column over a column of `t`. -/
def indexColumn (t : Table) : StateM src.State String := do
  let c := (← src.choose t.columns).written
  match ← src.intIn 0 5 1 with
  | 0 => pure c
  | 1 => pure (c ++ " DESC")
  | 2 => pure (c ++ " COLLATE NOCASE ASC")
  | 3 => pure ("lower(" ++ c ++ ")")
  | 4 => pure (c ++ " + 1")
  | _ => pure ("'" ++ columnLiteral t c ++ "'")

/-- The `pos`-th index on `t`, of one to three columns. -/
def index (t : Table) (pos : Nat) : StateM src.State String := do
  let count ← src.intIn 1 3 8
  let cols ← (List.range count).mapM fun _ => indexColumn src t
  let unique ← src.bit
  let sql := "CREATE " ++ (if unique then "UNIQUE " else "") ++ "INDEX IF NOT EXISTS ix" ++
    toString pos ++ " ON " ++ quoteIdentifier t.name ++ " (" ++ ", ".intercalate cols ++ ")"
  if ← src.ratio 1 3 then
    let c := (← src.choose t.columns).written
    pure (sql ++ " WHERE " ++ c ++ " NOTNULL AND " ++ c ++ " <> ''")
  else pure sql

end

/-- A generated schema: a table and the indexes on it. -/
structure Schema where
  table : Table
  indexes : List String
  deriving Inhabited, Repr

/-- A table, then up to three indexes on it. -/
def schema (src : Source) : StateM src.State Schema := do
  let t ← table src
  let count ← src.intIn 0 3 8
  let indexes ← (List.range count).mapM (index src t)
  pure { table := t, indexes }

/-- The statements of a schema: the table first, then its indexes. -/
def Schema.statements (s : Schema) : List String :=
  s.table.sql :: s.indexes

/-- The text of a schema: each statement followed by a semicolon and a line break. -/
def Schema.render (s : Schema) : String :=
  String.join (s.statements.map (· ++ ";\n"))

end SqlSchema.Generate
