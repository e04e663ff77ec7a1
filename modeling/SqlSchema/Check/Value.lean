import SqlSchema.Text.Escaped
import SqlSchema.Statement

/-! # Values in diagnostics

A failed check shows the values it compared. A `Value` is the shape of such a value (a text, a
number, a truth value, an optional value, a list, a tuple, a record or a tagged value) and
`Value.render` writes it on one line: texts escaped in double quotes, `[a, b]`, `(a, b)`,
`Name { field: a }`, `Name(a)`, `Some(a)` and `None`. The schema model is shown under the names of
its record types. -/

namespace SqlSchema

/-- The shape of a value shown in a diagnostic. -/
inductive Value where
  | text (s : String)
  | nat (n : Nat)
  | int (i : Int)
  | bool (b : Bool)
  | none
  | some (v : Value)
  | list (vs : List Value)
  | tuple (vs : List Value)
  /-- A record: its type name and its fields in order, each a `field`. -/
  | record (name : String) (fields : List Value)
  /-- A named field of a record. -/
  | field (name : String) (v : Value)
  /-- A tagged value: the tag and its arguments, shown without parentheses when there are none. -/
  | tagged (name : String) (args : List Value)
  deriving Inhabited

namespace Value

/-- The one-line text of a value. -/
def render : Value → String
  | .text s => Escaped.quote s
  | .nat n => toString n
  | .int i => toString i
  | .bool b => if b then "true" else "false"
  | .none => "None"
  | .some v => "Some(" ++ v.render ++ ")"
  | .list vs => "[" ++ ", ".intercalate (vs.map render) ++ "]"
  | .tuple vs => "(" ++ ", ".intercalate (vs.map render) ++ ")"
  | .record n fs => n ++ " \x7b " ++ ", ".intercalate (fs.map render) ++ " \x7d"
  | .field n v => n ++ ": " ++ v.render
  | .tagged n [] => n
  | .tagged n vs => n ++ "(" ++ ", ".intercalate (vs.map render) ++ ")"

/-- An optional text. -/
def ofOption : Option String → Value
  | Option.some s => .some (.text s)
  | Option.none => .none

end Value

/-- The name of a token kind. -/
def TokenKind.name : TokenKind → String
  | .word => "Identifier"
  | .quoted => "QuotedIdentifier"
  | .bracketed => "BracketedIdentifier"
  | .backquoted => "BackquotedIdentifier"
  | .string => "StringLiteral"
  | .blob => "BlobLiteral"
  | .numeric => "Numeric"
  | .operator => "Operator"
  | .closer => "PostfixKeyword"
  | .punct => "Punctuation"

/-- A token as a value. -/
def Token.toValue (t : Token) : Value :=
  .record "Token" [.field "text" (.text t.text), .field "kind" (.tagged t.kind.name [])]

/-- A tree as a value. -/
def Expr.toValue : Expr → Value
  | .leaf t => .tagged "Leaf" [t.toValue]
  | .unary op e => .record "Prefix" [.field "op" (op.toValue), .field "operand" (e.toValue)]
  | .binary l op r => .record "Infix" [.field "left" (l.toValue), .field "op" (op.toValue), .field "right" (r.toValue)]
  | .closing e w => .record "Postfix" [.field "operand" (e.toValue), .field "op" (w.toValue)]
  | .call f a => .record "Call" [.field "callee" (.tagged "Leaf" [f.toValue]), .field "args" (.some a.toValue)]
  | .emptyCall f => .record "Call" [.field "callee" (.tagged "Leaf" [f.toValue]), .field "args" (.none)]
  | .paren e => .tagged "Group" [e.toValue]

/-- A field as a value. -/
def Field.toValue (f : Field) : Value :=
  .record "FieldInfo" [.field "name" (.text f.name), .field "type_name" (.text f.typeName),
    .field "default_value" (Value.ofOption f.defaultValue),
    .field "default_is_expression" (.bool f.defaultIsExpression),
    .field "default_is_quoted" (.bool f.defaultIsQuoted), .field "is_part_of_primary_key" (.bool f.inPrimaryKey),
    .field "is_auto_increment" (.bool f.autoIncrement), .field "is_not_null" (.bool f.notNull)]

/-- A statement as a value. -/
def Statement.toValue : Statement → Value
  | .table t => .tagged "CreateTable" [.record "CreateTable" [.field "name" (.text t.name),
      .field "fields" (.list (t.fields.map Field.toValue)), .field "primary_key" (.list (t.primaryKey.map .nat)),
      .field "has_rowid" (.bool t.hasRowid), .field "is_temporary" (.bool t.temporary)]]
  | .index i => .tagged "CreateIndex" [.record "CreateIndex" [.field "name" (.text i.name),
      .field "table_name" (.text i.table), .field "is_unique" (.bool i.unique),
      .field "columns" (.list (i.columns.map Expr.toValue)),
      .field "where_predicate" (match i.predicate with
        | Option.some p => .some p.toValue
        | Option.none => .none)]]

end SqlSchema
