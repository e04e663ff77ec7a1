import SqlSchema.Statement.Error
import SqlSchema.Expr.Reader

/-! # The statement reader's steps

A `Cursor` reads statement text token by token from the front of a list and fails with a
`ReadError` at the first token that does not fit. Its steps look at the next token, take it when it
is the keyword, punctuation or name that is due, and say what was due when it is not. Loops go round
while a round asks for more and has taken a token, which bounds them by the number of tokens. -/

namespace SqlSchema

/-- A reader of tokens that fails with a `ReadError`. -/
abbrev Cursor := StateT (List Token) (Except ReadError)

namespace Cursor

/-- The next token, if any, without taking it. -/
def peek? : Cursor (Option Token) := fun ts => .ok (ts.head?, ts)

/-- Drops the next token. -/
def skip : Cursor Unit := fun ts => .ok ((), ts.tail)

/-- Takes the next token; at the end of the text, `expected` was due. -/
def next (expected : String) : Cursor Token := fun ts =>
  match ts with
  | t :: r => .ok (t, r)
  | [] => .error (.unexpectedEnd expected)

/-- Fails at the next token, or at the end of the text, where `expected` was due. -/
def unexpected (expected : String) : Cursor α := fun ts =>
  match ts with
  | t :: _ => .error (.unexpectedToken expected t)
  | [] => .error (.unexpectedEnd expected)

/-- Takes the next token when it satisfies `p`, and says whether it did. -/
def eatIf (p : Token → Bool) : Cursor Bool := fun ts =>
  match ts with
  | t :: r => if p t then .ok (true, r) else .ok (false, t :: r)
  | [] => .ok (false, [])

/-- Takes the next token when it is the keyword `kw`. -/
def eatKeyword (kw : String) : Cursor Bool :=
  eatIf (·.isKeyword kw)

/-- Takes the next token when it is one of the keywords `kws`. -/
def eatAnyKeyword (kws : List String) : Cursor Bool :=
  eatIf fun t => kws.any t.isKeyword

/-- Takes the keyword `kw`, which is due. -/
def expectKeyword (kw : String) : Cursor Unit := do
  if ← eatKeyword kw then pure () else unexpected kw

/-- Takes one of the keywords `kws`, which are due; `expected` names them. -/
def expectOneOf (kws : List String) (expected : String) : Cursor Unit := do
  if ← eatAnyKeyword kws then pure () else unexpected expected

/-- Takes the next token when it is the punctuation `c`. -/
def eatPunct (c : Char) : Cursor Bool :=
  eatIf (·.isPunct c)

/-- Takes the punctuation `c`, `(` or `)`, which is due. -/
def expectPunct (c : Char) : Cursor Unit := do
  if ← eatPunct c then pure ()
  else unexpected (if c == '(' || c == ')' then String.singleton c else "punctuation")

/-- Takes a name, which is due: an identifier in any quoting, or a string. -/
def expectName (expected : String) : Cursor String := do
  let t ← next expected
  if t.isName then pure t.text else throw (.unexpectedToken expected t)

/-- Takes the longest run of tokens that satisfy `p`. -/
def takeWhile (p : Token → Bool) : Cursor (List Token) := fun ts =>
  .ok (ts.takeWhile p, ts.dropWhile p)

/-- The text has ended. -/
def expectEnd : Cursor Unit := fun ts =>
  match ts with
  | t :: _ => .error (.trailingInput t)
  | [] => .ok ((), [])

/-- Reads an expression that stops at a bare word of `terms`; `context` names what it is for. -/
def expression (terms : List String) (context : String) : Cursor Expr := fun ts =>
  match Expr.read terms ts with
  | .read e r _ => .ok (e, r)
  | .failed _ => .error (.invalidExpression context)

/-- Reads a single operand; `context` names what it is for. -/
def operand (context : String) : Cursor Expr := fun ts =>
  match Expr.readOperand ts with
  | .read e r _ => .ok (e, r)
  | .failed _ => .error (.invalidExpression context)

/-- Runs `step` from `a` round after round while it asks for another round. A round that asks for
    another has taken a token; one that has taken none ends the loop. -/
def repeatWhile (step : α → Cursor (α × Bool)) (a : α) (ts : List Token) :
    Except ReadError (α × List Token) :=
  match step a ts with
  | .ok ((a', true), ts') =>
    if ts'.length < ts.length then repeatWhile step a' ts' else .ok (a', ts')
  | .ok ((a', false), ts') => .ok (a', ts')
  | .error e => .error e
termination_by ts.length

end Cursor

end SqlSchema
