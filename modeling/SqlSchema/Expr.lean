import SqlSchema.Token

/-! # Expression trees

An expression tree carries no operator precedence: operands are joined left to right in the order of
their tokens. Trees hold index columns, partial-index predicates and column defaults; they are
printed back and have their column names renamed, never evaluated.

Besides the tree, this module defines its height (the measure on which the reader's limit is
stated), its leaves in print order, and `Expr.tokens`, the tokens a tree was read from. -/

namespace SqlSchema

/-- A node of an expression tree. -/
inductive Expr where
  /-- A single token: a name, a literal or `*`. -/
  | leaf (tok : Token)
  /-- An operator before its operand, as in `-x` or `NOT x`. -/
  | unary (op : Token) (arg : Expr)
  /-- Two operands joined by an operator. A list joins its items with `Token.comma`, and two operands
      written side by side are joined by `Token.juxtaposition`. -/
  | binary (lhs : Expr) (op : Token) (rhs : Expr)
  /-- An operand followed by a closing word, as in `x DESC` or `x ISNULL`. -/
  | closing (arg : Expr) (word : Token)
  /-- A function applied to its arguments, which are joined by `Token.comma`. -/
  | call (callee : Token) (args : Expr)
  /-- A function applied to no arguments. -/
  | emptyCall (callee : Token)
  /-- An expression in parentheses. -/
  | paren (inner : Expr)
  deriving DecidableEq, Repr, Inhabited

namespace Expr

/-- The height of a tree: a leaf is 1, and every node stands one above its highest child. The callee
    of a call counts as a leaf. -/
def height : Expr → Nat
  | .leaf _ => 1
  | .unary _ e => e.height + 1
  | .binary l _ r => max l.height r.height + 1
  | .closing e _ => e.height + 1
  | .call _ a => a.height + 1
  | .emptyCall _ => 2
  | .paren e => e.height + 1

/-- The leaf tokens in print order; the callee of a call comes before its arguments. -/
def leaves : Expr → List Token
  | .leaf t => [t]
  | .unary _ e => e.leaves
  | .binary l _ r => l.leaves ++ r.leaves
  | .closing e _ => e.leaves
  | .call f a => f :: a.leaves
  | .emptyCall f => [f]
  | .paren e => e.leaves

/-- The token of a tree that is a single leaf. -/
def asLeaf? : Expr → Option Token
  | .leaf t => some t
  | _ => none

/-- The tokens a tree stands for, in order: the synthetic comma is the comma read, the juxtaposition
    stands for no token, and a call and a group bring their parentheses. -/
def tokens : Expr → List Token
  | .leaf t => [t]
  | .unary op e => op :: e.tokens
  | .binary l op r => l.tokens ++ (if op = Token.juxtaposition then [] else [op]) ++ r.tokens
  | .closing e w => e.tokens ++ [w]
  | .call f a => f :: ⟨"(", .punct⟩ :: a.tokens ++ [⟨")", .punct⟩]
  | .emptyCall f => [f, ⟨"(", .punct⟩, ⟨")", .punct⟩]
  | .paren e => ⟨"(", .punct⟩ :: e.tokens ++ [⟨")", .punct⟩]

theorem one_le_height (e : Expr) : 1 ≤ e.height := by
  cases e <;> simp [height]

end Expr

end SqlSchema
