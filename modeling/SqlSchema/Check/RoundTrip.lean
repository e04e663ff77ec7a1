import SqlSchema.Check.Value
import SqlSchema.Rename.Columns

/-! # Round-trip checks

Three checks of the reader against the printer. A failed check gives the text of its failure: what
was refused and why, or the two values that should have been equal.

* `assertRoundTrip` reads a statement, prints it and reads the print: both readings are equal, and
  printing the second gives the same text.
* `checkNormalForm` does the same for any text, and passes on text that cannot be read: the second
  reading is a normal form whose print reads back to itself.
* `checkRenameRoundTrip` renames one column of a readable statement and moves it to a new table; when
  that goes through, the print reads back and prints the same. -/

namespace SqlSchema.Check

/-- The failure of an equality check between the values `l` and `r`, with an optional message. -/
def notEqual (msg : Option String) (l r : Value) : String :=
  "assertion `left == right` failed" ++ (match msg with | some m => ": " ++ m | none => "") ++
    "\n  left: " ++ l.render ++ "\n right: " ++ r.render

/-- Fails with the comparison of `l` and `r` unless they are equal. -/
def expectEqual [DecidableEq α] (toValue : α → Value) (msg : Option String) (l r : α) :
    Except String Unit :=
  if l = r then .ok () else .error (notEqual msg (toValue l) (toValue r))

/-- Reads, prints and reads again; the statement read first when both readings agree. -/
def assertRoundTrip (sql : String) : Except String Statement := do
  let s ← (Statement.parse sql).mapError fun e =>
    "Failed to parse " ++ Escaped.quote sql ++ ": " ++ e.message
  let formatted := s.toSql
  let again ← (Statement.parse formatted).mapError fun e =>
    "Formatted SQL rejected: " ++ e.message ++ "\n" ++ formatted
  expectEqual Statement.toValue
    (some ("Round trip changed the statement\ninput: " ++ sql ++ "\nformatted: " ++ formatted)) s again
  expectEqual Value.text (some "Formatting is not stable") formatted again.toSql
  pure s

/-- Reads any text; when it reads, its print has a normal form that reads back to itself. -/
def checkNormalForm (sql : String) : Except String Unit :=
  match Statement.parse sql with
  | .error _ => .ok ()
  | .ok s => do
    let formatted := s.toSql
    let normal ← (Statement.parse formatted).mapError fun e =>
      "Formatted SQL rejected: " ++ e.message ++ "\ninput: " ++ Escaped.quote sql ++ "\n" ++ formatted
    let canonical := normal.toSql
    let again ← (Statement.parse canonical).mapError fun e =>
      "Canonical SQL rejected: " ++ e.message ++ "\n" ++ canonical
    expectEqual Statement.toValue (some ("Canonical form is not stable\ninput: " ++ Escaped.quote sql))
      normal again
    expectEqual Value.text none canonical again.toSql

/-- Renames `old` to `new` in a readable statement moved to the table `table`; when that goes through,
    the print reads back and prints the same. -/
def checkRenameRoundTrip (sql table old new : String) : Except String Unit :=
  match Statement.parse sql with
  | .error _ => .ok ()
  | .ok s =>
    let r := s.replace table (RenameMap.empty.rename old new)
    if !r.2 then .ok ()
    else do
      let formatted := r.1.toSql
      let again ← (Statement.parse formatted).mapError fun e =>
        "Rewritten SQL rejected: " ++ e.message ++ "\ninput: " ++ Escaped.quote sql ++ "\noutput: " ++
          formatted
      expectEqual Value.text (some ("Rewritten SQL is not stable\ninput: " ++ Escaped.quote sql))
        formatted again.toSql

end SqlSchema.Check
