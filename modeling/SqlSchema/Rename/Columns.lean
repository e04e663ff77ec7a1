import SqlSchema.Rename
import SqlSchema.Expr
import SqlSchema.Statement.Reader
import SqlSchema.Statement.Printer

/-! # Carrying statements over column changes

A table keeps the fields that are not dropped, in order, with renamed fields under their new names;
its primary key follows the kept fields to their new positions. Each field is looked up once by its
old name, so renames happen all at once (`a → b` with `b → a` swaps). Dropping every field is an
error that leaves the table as it was.

An index has the column references of its columns, then of its predicate, renamed, each renamed
reference becoming a double-quoted name. The callee of a call and the collation after `COLLATE` are
never references. The first reference to a dropped column stops the pass with an error; the
references before it stay renamed. -/

namespace SqlSchema

/-- A token carried over the change map at place `p`: a renamed reference, or the name of the
    dropped column it refers to. -/
def Token.renameAt (m : RenameMap) (p : Place) (t : Token) : Except String Token :=
  if t.refersToColumn p then
    match m.get? t.text with
    | some .drop => .error t.text
    | some (.rename n) => .ok ⟨n, .quoted⟩
    | none => .ok t
  else .ok t

namespace Expr

/-- The tree with its references at place `p` renamed up to the first one to a dropped column, and
    the name of that column if there is one. -/
def renameAt (m : RenameMap) : Place → Expr → Expr × Option String
  | p, .leaf t =>
    match t.renameAt m p with
    | .ok t' => (.leaf t', none)
    | .error n => (.leaf t, some n)
  | p, .closing e w =>
    let r := renameAt m p e
    (.closing r.1 w, r.2)
  | p, .binary l op r =>
    if op.isKeyword "COLLATE" then
      let a := renameAt m p l
      (.binary a.1 op r, a.2)
    else
      let a := renameAt m p.inner l
      match a.2 with
      | some n => (.binary a.1 op r, some n)
      | none =>
        let b := renameAt m p.inner r
        (.binary a.1 op b.1, b.2)
  | p, .unary op e =>
    let r := renameAt m p.inner e
    (.unary op r.1, r.2)
  | p, .call f a =>
    let r := renameAt m p.inner a
    (.call f r.1, r.2)
  | _, .emptyCall f => (.emptyCall f, none)
  | p, .paren e =>
    let r := renameAt m p.inner e
    (.paren r.1, r.2)

end Expr

/-- Indexed columns renamed in order up to the first reference to a dropped column. -/
def renameIndexedColumns (m : RenameMap) : List Expr → List Expr × Option String
  | [] => ([], none)
  | c :: cs =>
    let r := c.renameAt m .indexed
    match r.2 with
    | some n => (r.1 :: cs, some n)
    | none =>
      let rs := renameIndexedColumns m cs
      (r.1 :: rs.1, rs.2)

/-- The index carried over the change map, with the error that stopped it if any. -/
def Index.renameColumns (m : RenameMap) (i : Index) : Index × Option RenameError :=
  let cols := renameIndexedColumns m i.columns
  match cols.2 with
  | some n => ({ i with columns := cols.1 }, some (.droppedColumn n))
  | none =>
    match i.predicate with
    | some p =>
      let r := p.renameAt m .predicate
      ({ i with columns := cols.1, predicate := some r.1 }, r.2.map .droppedColumn)
    | none => ({ i with columns := cols.1 }, none)

/-- The new position of each field, or `none` for a dropped one; kept fields count from `k`. -/
def RenameMap.slots (m : RenameMap) (k : Nat) : List Field → List (Option Nat)
  | [] => []
  | f :: fs => if m.drops f.name then none :: m.slots k fs else some k :: m.slots (k + 1) fs

/-- A field under its new name, if it is renamed. -/
def Field.renamed (m : RenameMap) (f : Field) : Field :=
  match m.get? f.name with
  | some (.rename n) => { f with name := n }
  | _ => f

/-- The table carried over the change map. -/
def Table.renameColumns (m : RenameMap) (t : Table) : Except RenameError Table :=
  let kept := t.fields.filter fun f => !m.drops f.name
  if kept.isEmpty then .error (.noColumnsLeft t.name)
  else
    let slots := m.slots 0 t.fields
    .ok { t with
      fields := kept.map (Field.renamed m)
      primaryKey := t.primaryKey.filterMap fun i => (slots[i]?).join }

namespace Statement

/-- The statement carried over the change map, with the error that stopped it if any. A table that
    cannot be carried over is left as it was. -/
def renameColumns (m : RenameMap) : Statement → Statement × Option RenameError
  | .table t =>
    match t.renameColumns m with
    | .ok t' => (.table t', none)
    | .error e => (.table t, some e)
  | .index i =>
    let r := i.renameColumns m
    (.index r.1, r.2)

/-- The statement with its table, or the table it indexes, named `name`. -/
def withTable (s : Statement) (name : String) : Statement :=
  match s with
  | .table t => .table { t with name := name }
  | .index i => .index { i with table := name }

/-- Moves the statement to the table `name` and carries it over the change map; says whether that
    went through. The table name changes either way. -/
def replace (s : Statement) (name : String) (m : RenameMap) : Statement × Bool :=
  let r := (s.withTable name).renameColumns m
  (r.1, r.2.isNone)

end Statement

/-- Why statement text could not be regenerated for new columns. -/
inductive RegenerateError where
  | read (e : ReadError)
  | rename (e : RenameError)
  deriving DecidableEq, Repr

/-- Reads a statement, moves it to the table `table`, carries it over the change map, and prints
    it. -/
def regenerate (sql table : String) (m : RenameMap) : Except RegenerateError String :=
  match Statement.parse sql with
  | .error e => .error (.read e)
  | .ok s =>
    let r := (s.withTable table).renameColumns m
    match r.2 with
    | some e => .error (.rename e)
    | none => .ok r.1.toSql

end SqlSchema
