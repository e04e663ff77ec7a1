import SqlSchema.Token

/-! # Column changes

A change map says, for column names matched exactly, whether a column is renamed or dropped. Writing
a change for a name that already has one replaces it, so the last change written for a name wins.

Which tokens of an index name a column depends on where they stand, as the schema language resolves
them:

| token                       | indexed column | nested expression | predicate |
|-----------------------------|----------------|-------------------|-----------|
| number                      | no             | no                | no        |
| string `'x'`                | yes            | no                | no        |
| `"x"`, `[x]`, backquoted    | yes            | yes               | yes       |
| bare word                   | yes            | yes               | no        |
| bare `NULL`                 | no             | no                | no        |

A string is a column name only when it is the whole indexed column, possibly followed by `COLLATE`
or a closing word. -/

namespace SqlSchema

/-- What becomes of a column. -/
inductive Change where
  /-- The column is renamed to `name`. -/
  | rename (name : String)
  /-- The column is dropped. -/
  | drop
  deriving DecidableEq, Repr, Inhabited

/-- Changes to columns, by exact column name; each name has at most one change. -/
structure RenameMap where
  entries : List (String × Change) := []
  deriving Repr, Inhabited

namespace RenameMap

/-- No changes. -/
def empty : RenameMap := {}

/-- The change for the column `name`. -/
def get? (m : RenameMap) (name : String) : Option Change :=
  (m.entries.find? (·.1 == name)).map (·.2)

/-- Sets the change for `name`, replacing the one it had. -/
def insert (m : RenameMap) (name : String) (c : Change) : RenameMap :=
  ⟨(name, c) :: m.entries.filter (·.1 != name)⟩

/-- Adds a rename of `old` to `new`. -/
def rename (m : RenameMap) (old new : String) : RenameMap :=
  m.insert old (.rename new)

/-- Adds a drop of `old`. -/
def dropColumn (m : RenameMap) (old : String) : RenameMap :=
  m.insert old .drop

/-- The map of the changes in order, a later change for a name replacing an earlier one. -/
def ofList (cs : List (String × Change)) : RenameMap :=
  cs.foldl (fun m c => m.insert c.1 c.2) empty

/-- The number of names with a change. -/
def size (m : RenameMap) : Nat :=
  m.entries.length

/-- No name has a change. -/
def isEmpty (m : RenameMap) : Bool :=
  m.entries.isEmpty

/-- The column `name` is dropped. -/
def drops (m : RenameMap) (name : String) : Bool :=
  m.get? name == some .drop

end RenameMap

/-- Why a statement cannot be carried over a change map. -/
inductive RenameError where
  /-- The column `name` is dropped, but an index still refers to it. -/
  | droppedColumn (name : String)
  /-- Every column of the table `table` is dropped. -/
  | noColumnsLeft (table : String)
  deriving DecidableEq, Repr, Inhabited

/-- The text of a rename error. -/
def RenameError.message : RenameError → String
  | .droppedColumn n => "Column '" ++ n ++ "' is dropped but still referenced"
  | .noColumnsLeft t => "No columns left in table '" ++ t ++ "'"

/-- Where a token of an index stands. -/
inductive Place where
  /-- In an indexed column, under nothing but closing words and the left side of `COLLATE`. -/
  | indexed
  /-- Inside an expression of an indexed column. -/
  | nested
  /-- In the predicate. -/
  | predicate
  deriving DecidableEq, Repr

/-- The place of a token one level further inside an expression. -/
def Place.inner : Place → Place
  | .indexed | .nested => .nested
  | .predicate => .predicate

/-- A token that names a column at place `p`. -/
def Token.refersToColumn (t : Token) (p : Place) : Bool :=
  match t.kind with
  | .quoted | .bracketed | .backquoted => true
  | .word => p != .predicate && !sameWord t.text "NULL"
  | .string => p == .indexed
  | _ => false

end SqlSchema
