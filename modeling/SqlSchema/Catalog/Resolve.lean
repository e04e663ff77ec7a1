import SqlSchema.Catalog.Parser
import SqlSchema.Catalog.Function

/-! # Checking the names in an expression

An expression stored with a table (a `CHECK` constraint, a generated column, an index key or an index
predicate) may name only the columns of that table. Checking visits the expression from the top, left
side before right side. A name that is no column is an error, unless it is the rowid (where the table
has one and the place allows it), a name in double quotes (which then reads as a string) or a bare
`true` or `false`; such an error stops the visit. A call must name a known function with a number of
arguments it takes, and neither an aggregate nor a window function; outside `CHECK` constraints it
must be deterministic. Parameters and subqueries are refused. After an error other than a bad name,
the visit goes on to the arguments of a call, and to the next expression only at a name. -/

namespace SqlSchema.Catalog

open SqlSchema.Catalog.Parser

/-- Where an expression stored with a table stands. -/
inductive Place where
  | check
  | generated
  | indexKey
  | indexPredicate
  deriving DecidableEq, Repr

/-- How messages name the expressions of a place. -/
def Place.text : Place → String
  | .check => "CHECK constraints"
  | .generated => "generated columns"
  | .indexKey => "index expressions"
  | .indexPredicate => "partial index WHERE clauses"

/-- The place allows naming the rowid. -/
def Place.allowsRowid : Place → Bool
  | .check => true
  | .indexPredicate => true
  | _ => false

/-- A name for the rowid. -/
def isRowidName (n : String) : Bool :=
  sameName n "rowid" || sameName n "oid" || sameName n "_rowid_"

/-- The names `true` and `false`. -/
def isTruthName (n : String) : Bool :=
  sameName n "true" || sameName n "false"

/-- What checking a name says about the rest of the visit: go on, or stop. -/
inductive Visit where
  | skip
  | stop
  deriving DecidableEq

/-- The table an expression is checked against, and the schema it is in. -/
structure Scope where
  table : Table
  schema : SchemaName
  place : Place

namespace Scope

/-- The column `col`, qualified by `qualifiers`, names a column of the table or its rowid. -/
def finds (sc : Scope) (qualifiers : List String) (col : String) : Bool :=
  let tableMatches := match qualifiers with
    | [] => true
    | [t] => sameName t sc.table.name
    | [d, t] => sameName d sc.schema.text && sameName t sc.table.name
    | _ => false
  tableMatches &&
    ((sc.table.columnIndex? col).isSome ||
      (sc.place.allowsRowid && !sc.table.withoutRowid && isRowidName col))

/-- Records that `what` may not stand in the place. -/
def refuse (sc : Scope) (what : String) (off : Option Nat) : Parser Unit :=
  record { message := what ++ " prohibited in " ++ sc.place.text, offset := off }

/-- Checks a name that is not qualified. -/
def visitName (sc : Scope) (n : String) (q : Quoting) (off : Nat) : Parser Visit := do
  if sc.finds [] n then return .skip
  else if q = .double then return .skip
  else if q = .bare && isTruthName n then return .skip
  else
    record { message := "no such column: " ++ n, offset := some off }
    return .stop

/-- Checks a call, before its arguments. -/
def visitCall (sc : Scope) (fn : String) (n : Nat) (off : Nat) : Parser Unit := do
  match lookupFunction fn n with
  | .unknown => record { message := "no such function: " ++ fn, offset := some off }
  | .wrongArity =>
    record { message := "wrong number of arguments to function " ++ fn ++ "()", offset := some off }
  | .found kind directOnly =>
    let deterministic := match kind with
      | .plain d => d
      | _ => false
    if !deterministic && sc.place != .check then
      sc.refuse "non-deterministic functions" (some off)
    if directOnly then
      record { message := "unsafe use of " ++ fn ++ "()", offset := none }
    match kind with
    | .aggregate =>
      record { message := "misuse of aggregate function " ++ fn ++ "()", offset := some off }
    | .window =>
      record { message := "misuse of window function " ++ fn ++ "()", offset := some off }
    | .plain _ => pure ()

mutual

/-- Visits an expression; `true` when the visit stops. -/
def walk (sc : Scope) : Term → Parser Bool
  | .name n q off => do return (← sc.visitName n q off) = .stop
  | .dotted qs n off => do
    if sc.place = .indexKey || sc.place = .generated then
      sc.refuse "the \".\" operator" (some off)
    if sc.finds qs n then return false
    else
      record { message := "no such column: " ++ ".".intercalate (qs ++ [n]), offset := some off }
      return true
  | .call fn args off => do
    sc.visitCall fn args.length off
    _ ← walkAll sc args
    return false
  | .param off => do
    sc.refuse "parameters" (some off)
    return true
  | .query => do
    sc.refuse "subqueries" none
    return true
  | .inQuery t => do
    sc.refuse "subqueries" t.offset?
    return true
  | .truth l r => do
    let rightFirst ← match r with
      | .name n q off => do
        if (← sc.visitName n q off) = .stop then pure (some true)
        else if q = .bare && isTruthName n && !sc.finds [] n then pure (some false)
        else pure none
      | _ => pure none
    match rightFirst with
    | some true => return true
    | some false =>
      if ← walk sc l then return true
      failing
    | none =>
      if ← failing then return true
      if ← walk sc l then return true
      match r with
      | .name _ _ _ => failing
      | _ => walk sc r
  | .unary t => do
    if ← failing then return true
    walk sc t
  | .binary l r => do
    if ← failing then return true
    if ← walk sc l then return true
    walk sc r
  | .collate t _ => do
    if ← failing then return true
    walk sc t
  | .cast t _ => do
    if ← failing then return true
    walk sc t
  | .nullTest t => do
    if ← failing then return true
    walk sc t
  | .between t lo hi => do
    if ← failing then return true
    if ← walk sc t then return true
    if ← walk sc lo then return true
    walk sc hi
  | .inList t items => do
    if ← failing then return true
    if ← walk sc t then return true
    walkAll sc items
  | .caseOf s arms => do
    if ← failing then return true
    match s with
    | some t => if ← walk sc t then return true
    | none => pure ()
    walkAll sc arms
  | .vector items => do
    if ← failing then return true
    walkAll sc items
  | .literal _ _ => failing
  | .string _ _ => failing
  | .raise => failing

/-- Visits expressions in order until one stops the visit. -/
def walkAll (sc : Scope) : List Term → Parser Bool
  | [] => pure false
  | t :: ts => do
    if ← walk sc t then return true
    walkAll sc ts

end

/-- Checks an expression against the table; `true` when an error is recorded. -/
def check (sc : Scope) (t : Term) : Parser Bool := do
  _ ← walk sc t
  failing

/-- Checks expressions in order, stopping after the first with an error; `true` when an error is
    recorded. -/
def checkAll (sc : Scope) : List Term → Parser Bool
  | [] => failing
  | t :: ts => do
    if ← sc.check t then return true
    sc.checkAll ts

/-- The column a checked expression names, under any `COLLATE`, when it is a plain column. -/
def columnOf? (sc : Scope) (t : Term) : Option Nat :=
  match t.skipCollate with
  | .name n _ _ => sc.table.columnIndex? n
  | .dotted _ n _ => sc.table.columnIndex? n
  | _ => none

end Scope

end SqlSchema.Catalog
