/-! # Engine expressions

The catalog keeps of an expression what checking it needs: which names, calls, parameters and
subqueries it holds, in the order the engine visits them, and the byte offset of the tokens that
carry one. Operators are not told apart, except that `IS` looks at its right side first. A call to
a pattern operator keeps its operands in the engine's order: pattern, subject, escape.

An error in an expression points at a token: the expression's own token when it has one (a name, a
literal, a parameter, a call), else the token of its left-most operand, else nowhere. -/

namespace SqlSchema.Catalog

/-- How a name is written: bare, in double quotes, or in other quotes. A name in double quotes that
    names no column reads as a string. -/
inductive Quoting where
  | bare
  | double
  | other
  deriving DecidableEq, Repr, Inhabited

/-- An expression as the catalog checks it. -/
inductive Term where
  /-- A literal number, blob or `NULL`; `zero` marks the integer zero. -/
  | literal (off : Option Nat) (zero : Bool)
  | string (text : String) (off : Nat)
  /-- A name, without its quotes. -/
  | name (text : String) (quoting : Quoting) (off : Nat)
  /-- A column named with its table, and maybe the table's schema, before it. -/
  | dotted (qualifiers : List String) (column : String) (off : Nat)
  | param (off : Nat)
  /-- A call of a function by name, with its arguments; `off` is the offset of the name. -/
  | call (fn : String) (args : List Term) (off : Nat)
  | unary (t : Term)
  | binary (l r : Term)
  /-- `IS` and `IS NOT`: the right side is checked first. -/
  | truth (l r : Term)
  | collate (t : Term) (collation : String)
  /-- A conversion, with the type written for it. -/
  | cast (t : Term) (type : String)
  | nullTest (t : Term)
  | between (t lo hi : Term)
  | inList (t : Term) (items : List Term)
  | inQuery (t : Term)
  /-- A subquery, or `EXISTS` of one. -/
  | query
  | caseOf (subject : Option Term) (arms : List Term)
  | vector (items : List Term)
  | raise
  deriving Inhabited, Repr

namespace Term

/-- The byte offset an error in the expression points at. -/
def offset? : Term → Option Nat
  | .literal off _ => off
  | .string _ off => some off
  | .name _ _ off => some off
  | .dotted _ _ off => some off
  | .param off => some off
  | .call _ _ off => some off
  | .unary t => t.offset?
  | .binary l _ => l.offset?
  | .truth l _ => l.offset?
  | .collate t _ => t.offset?
  | .cast t _ => t.offset?
  | .nullTest t => t.offset?
  | .between t _ _ => t.offset?
  | .inList t _ => t.offset?
  | .inQuery t => t.offset?
  | .query => none
  | .caseOf (some t) _ => t.offset?
  | .caseOf none _ => none
  | .vector _ => none
  | .raise => none

/-- The integer zero, which makes a conjunction false whatever its other side. -/
def isZero : Term → Bool
  | .literal _ zero => zero
  | _ => false

/-- The conjunction of two expressions; a side that is the integer zero makes it the constant zero. -/
def conj (l r : Term) : Term :=
  if l.isZero || r.isZero then .literal none true else .binary l r

/-- The expression without a `COLLATE` at its top. -/
def skipCollate : Term → Term
  | .collate t _ => t.skipCollate
  | t => t

/-- A string read as a name, also under a `COLLATE`: how an indexed column written as a string
    names a column. -/
def stringAsName : Term → Term
  | .string s off => .name s .other off
  | .collate (.string s off) c => .collate (.name s .other off) c
  | t => t

end Term

/-- A table named in the `FROM` clause of a query, with its schema when one is written, and the alias
    it is given. -/
structure Source where
  schema : Option String
  name : String
  asName : Option String := none
  deriving Repr, Inhabited

/-- An item of the `FROM` clause of a select as the names of its result see it: a named table, or a
    subquery or table function, whose columns the catalog does not follow, with its alias. -/
inductive FromItem where
  | table (s : Source)
  | derived (asName : Option String)
  deriving Repr, Inhabited

/-- A result column of a select: all columns of its tables, or of the one named, or an expression
    with its alias and its text as written. -/
inductive ResultColumn where
  | all (qualifier : Option String)
  | term (t : Term) (asName : Option String) (text : String)
  deriving Repr, Inhabited

/-- What the catalog keeps of a query: the tables it reads, other than those it defines itself, and
    the result columns and `FROM` items of its first select, which name the columns of its result. -/
structure Query where
  sources : List Source := []
  columns : List ResultColumn := []
  scope : List FromItem := []
  deriving Repr, Inhabited

end SqlSchema.Catalog
