import SqlSchema.Token

/-! # Read errors

Why a statement text was refused. The reader stops at the first token that does not fit, so each
error names one cause; `ReadError.message` holds all of their wording, with a token shown in its
source form. -/

namespace SqlSchema

/-- Why a statement text was refused. -/
inductive ReadError where
  /-- The token `found` stands where `expected` was due. -/
  | unexpectedToken (expected : String) (found : Token)
  /-- The text ended where `expected` was due. -/
  | unexpectedEnd (expected : String)
  /-- No expression could be read where one was due. -/
  | invalidExpression (context : String)
  /-- A complete statement is followed by more tokens, the first of them `found`. -/
  | trailingInput (found : Token)
  /-- A table without a single column. -/
  | emptyColumnList
  deriving DecidableEq, Repr, Inhabited

/-- The text of a read error. -/
def ReadError.message : ReadError → String
  | .unexpectedToken e t => "Unexpected token " ++ t.render ++ ", expected " ++ e
  | .unexpectedEnd e => "Unexpected end of input, expected " ++ e
  | .invalidExpression c => "Invalid expression in " ++ c
  | .trailingInput t => "Unexpected trailing input starting at " ++ t.render
  | .emptyColumnList => "Empty column list in CREATE TABLE"

end SqlSchema
