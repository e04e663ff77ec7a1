import SqlSchema.Catalog.Lexeme

/-! # Keywords

A word of ASCII letters and `_` whose upper-case spelling is in `keywords` is a keyword. Most
keywords that are not reserved may also stand for a name: a keyword in `nameKeywords` reads as a name
wherever the grammar has no use for the keyword itself. The join words (`LEFT`, `NATURAL`, …) and
`INDEXED` are reserved but may still name a table or a column. -/

namespace SqlSchema.Catalog

/-- The keywords of the engine. -/
def keywords : List String :=
  ["ABORT", "ACTION", "ADD", "AFTER", "ALL", "ALTER", "ALWAYS", "ANALYZE", "AND", "AS", "ASC",
    "ATTACH", "AUTOINCREMENT", "BEFORE", "BEGIN", "BETWEEN", "BY", "CASCADE", "CASE", "CAST", "CHECK",
    "COLLATE", "COLUMN", "COMMIT", "CONFLICT", "CONSTRAINT", "CREATE", "CROSS", "CURRENT",
    "CURRENT_DATE", "CURRENT_TIME", "CURRENT_TIMESTAMP", "DATABASE", "DEFAULT", "DEFERRED",
    "DEFERRABLE", "DELETE", "DESC", "DETACH", "DISTINCT", "DO", "DROP", "END", "EACH", "ELSE",
    "ESCAPE", "EXCEPT", "EXCLUSIVE", "EXCLUDE", "EXISTS", "EXPLAIN", "FAIL", "FIRST", "FOLLOWING",
    "FOR", "FOREIGN", "FROM", "FULL", "GENERATED", "GLOB", "GROUP", "GROUPS", "HAVING", "IF",
    "IGNORE", "IMMEDIATE", "IN", "INDEX", "INDEXED", "INITIALLY", "INNER", "INSERT", "INSTEAD",
    "INTERSECT", "INTO", "IS", "ISNULL", "JOIN", "KEY", "LAST", "LEFT", "LIKE", "LIMIT", "MATCH",
    "MATERIALIZED", "NATURAL", "NO", "NOT", "NOTHING", "NOTNULL", "NULL", "NULLS", "OF", "OFFSET",
    "ON", "OR", "ORDER", "OTHERS", "OUTER", "PARTITION", "PLAN", "PRAGMA", "PRECEDING", "PRIMARY",
    "QUERY", "RAISE", "RANGE", "RECURSIVE", "REFERENCES", "REGEXP", "REINDEX", "RELEASE", "RENAME",
    "REPLACE", "RESTRICT", "RETURNING", "RIGHT", "ROLLBACK", "ROW", "ROWS", "SAVEPOINT", "SELECT",
    "SET", "TABLE", "TEMP", "TEMPORARY", "THEN", "TIES", "TO", "TRANSACTION", "TRIGGER", "UNBOUNDED",
    "UNION", "UNIQUE", "UPDATE", "USING", "VACUUM", "VALUES", "VIEW", "VIRTUAL", "WHEN", "WHERE",
    "WITH", "WITHOUT"]

/-- The keywords that may stand for a name where the grammar has no use for them. -/
def nameKeywords : List String :=
  ["ABORT", "ACTION", "AFTER", "ANALYZE", "ASC", "ATTACH", "BEFORE", "BEGIN", "BY", "CASCADE",
    "CAST", "COLUMN", "CONFLICT", "DATABASE", "DEFERRED", "DESC", "DETACH", "DO", "EACH", "END",
    "EXCLUSIVE", "EXPLAIN", "FAIL", "FOR", "IGNORE", "IMMEDIATE", "INITIALLY", "INSTEAD", "LIKE",
    "GLOB", "REGEXP", "MATCH", "NO", "PLAN", "QUERY", "KEY", "OF", "OFFSET", "PRAGMA", "RAISE",
    "RECURSIVE", "RELEASE", "REPLACE", "RESTRICT", "ROW", "ROWS", "ROLLBACK", "SAVEPOINT", "TEMP",
    "TEMPORARY", "TRIGGER", "VACUUM", "VIEW", "VIRTUAL", "WITH", "WITHOUT", "NULLS", "FIRST",
    "LAST", "CURRENT", "FOLLOWING", "PARTITION", "PRECEDING", "RANGE", "UNBOUNDED", "EXCLUDE",
    "GROUPS", "OTHERS", "TIES", "GENERATED", "ALWAYS", "MATERIALIZED", "REINDEX", "RENAME",
    "CURRENT_DATE", "CURRENT_TIME", "CURRENT_TIMESTAMP", "IF"]

/-- The join words, which may also name a table or a column. -/
def joinWords : List String :=
  ["CROSS", "FULL", "INNER", "LEFT", "NATURAL", "OUTER", "RIGHT"]

/-- The operator words of pattern matching. -/
def likeWords : List String := ["LIKE", "GLOB", "REGEXP"]

/-- The words for the current date and time. -/
def clockWords : List String := ["CURRENT_DATE", "CURRENT_TIME", "CURRENT_TIMESTAMP"]

namespace Lexeme

/-- The keyword a token spells, in upper case. -/
def keyword? (t : Lexeme) : Option String :=
  if t.kind = .word && t.text.all (fun c => c.isAlpha || c = '_') then
    let u := t.text.toUpper
    if keywords.contains u then some u else none
  else none

/-- The token is the keyword `kw` (given in upper case). -/
def isKeyword (t : Lexeme) (kw : String) : Bool :=
  t.keyword? = some kw

/-- The token is one of the keywords `kws`. -/
def isKeywordIn (t : Lexeme) (kws : List String) : Bool :=
  match t.keyword? with
  | some k => kws.contains k
  | none => false

/-- The token is the symbol `s`. -/
def isSymbol (t : Lexeme) (s : String) : Bool :=
  t.kind = .symbol && t.text = s

/-- An identifier: a word that is no keyword or a keyword that may stand for a name, or a quoted
    name. -/
def isId (t : Lexeme) : Bool :=
  match t.kind with
  | .word =>
    match t.keyword? with
    | some k => nameKeywords.contains k
    | none => true
  | .quotedName => true
  | _ => false

/-- An identifier or `INDEXED`. -/
def isIdOrIndexed (t : Lexeme) : Bool :=
  t.isId || t.isKeyword "INDEXED"

/-- A name of a table, column or other object: an identifier, a string, `INDEXED` or a join word. -/
def isName (t : Lexeme) : Bool :=
  t.isIdOrIndexed || t.kind = .string || t.isKeywordIn joinWords

/-- A word of a type name or of a collation name: an identifier or a string. -/
def isTypeWord (t : Lexeme) : Bool :=
  t.isId || t.kind = .string

end Lexeme

end SqlSchema.Catalog
