import SqlSchema.Expr

/-! # Printing expressions

`Expr.render` writes a tree back as statement text, with one blank around each operator. Three
spacings keep the text readable the same way: an operator word or an operand that starts with `-`
is set apart from its unary operator (`NOT x`, `- -1`, where `--` would open a comment), and a point
is set apart from a number on its left or a digit on its right (`1 . a`, which `1.a` would misread as
the number `1.`). -/

namespace SqlSchema.Expr

/-- The last token written for a tree, when it ends in a leaf without closing words or
    parentheses. -/
def lastToken? : Expr → Option Token
  | .leaf t => some t
  | .unary _ e => e.lastToken?
  | .binary _ _ r => r.lastToken?
  | _ => none

/-- A text made of ASCII letters only (the empty text included). -/
def isLetters (s : String) : Bool :=
  s.all Char.isAlpha

/-- The text of a tree. -/
def render : Expr → String
  | .leaf t => t.render
  | .unary op e =>
    let s := e.render
    if isLetters op.text || s.startsWith "-" then op.render ++ " " ++ s else op.render ++ s
  | .binary l op r =>
    if op.kind == .punct && op.text == "," then l.render ++ ", " ++ r.render
    else if op.kind == .punct && op.text == "" then l.render ++ " " ++ r.render
    else if op.kind == .operator && op.text == "." then
      let rs := r.render
      if (l.lastToken?.map (·.kind == .numeric)).getD false || (rs.toList.head?.map Char.isDigit).getD false
      then l.render ++ " . " ++ rs
      else l.render ++ "." ++ rs
    else l.render ++ " " ++ op.render ++ " " ++ r.render
  | .closing e w => e.render ++ " " ++ w.render
  | .call f a => f.render ++ "(" ++ a.render ++ ")"
  | .emptyCall f => f.render ++ "()"
  | .paren e => "(" ++ e.render ++ ")"

end SqlSchema.Expr
