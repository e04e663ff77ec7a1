import SqlSchema.Catalog.Reader.Statement

/-! # Running statements

A text may hold several statements. They run one at a time, each prepared against the catalog the
ones before it left: the first statement is read from the text, and when it is read without error its
change is made and the rest of the text, from just after its `;`, runs next. Empty statements (only
`;`) are passed over, and a `NUL` character ends the text as the engine sees it.

An error stops the text. Its display names the text that was being prepared when the error carries a
byte offset into it: `message in text at offset n`. -/

namespace SqlSchema.Catalog

/-- The display of an error found in the statement text `text`. -/
def EngineError.display (e : EngineError) (text : String) : String :=
  match e.offset with
  | some n => e.message ++ " in " ++ text ++ " at offset " ++ toString n
  | none => e.message

/-- Reads and runs the first statement of `text`: the catalog after it, and how many characters of
    the text it took. -/
def runFirst (c : Database) (text : List Char) : Except EngineError (Database × Nat) :=
  let visible := text.takeWhile (· != '\x00')
  let lexemes := (scan visible).dropWhile (·.isSymbol ";")
  if lexemes.isEmpty then .ok (c, text.length)
  else
    let start : ParseState := { rest := lexemes, text := visible, catalog := c }
    match (Reader.statement (16 * lexemes.length + 16)).run start with
    | .ok ((change, used), _) => .ok (c.apply change, used)
    | .error e => .error e

/-- Runs the statements of `text` in order, `fuel` of them at most; the catalog after them, or the
    display of the first error. -/
def runText (c : Database) : Nat → List Char → Except String Database
  | 0, _ => .ok c
  | f + 1, text =>
    if text.isEmpty then .ok c
    else
      match runFirst c text with
      | .error e => .error (e.display (String.ofList text))
      | .ok (c', used) =>
        if used == 0 || used ≥ text.length then .ok c'
        else runText c' f (text.drop used)

/-- Runs a text of statements on a catalog. -/
def Database.run (c : Database) (text : String) : Except String Database :=
  runText c (text.length + 1) text.toList

/-- The stored text of the objects of the main schema, oldest first, without the engine's own. -/
def Database.storedSql (c : Database) : List String :=
  c.main.entries.filterMap fun e => if e.name.startsWith "sqlite_" then none else e.sql?

end SqlSchema.Catalog
