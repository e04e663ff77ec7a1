import SqlSchema.Catalog.Keyword
import SqlSchema.Catalog.Schema

/-! # Reading statements as the engine does

The engine reads a statement token by token and acts as soon as a part of the grammar is complete,
when the token after it has arrived. An action that finds an error records it and reading goes on
until that token has been taken; a token the grammar cannot take, or an illegal token, ends reading
with an error of its own. The last error recorded is the one reported.

A `Parser` reads tokens from the front of a list and keeps, besides the error waiting to be reported,
the catalog the statement sees and the table the statement is building. -/

namespace SqlSchema.Catalog

/-- An error of the engine, and the byte offset of the statement text it points at. -/
structure EngineError where
  message : String
  offset : Option Nat := none
  deriving Repr, Inhabited, DecidableEq

/-- The state of reading one statement. -/
structure ParseState where
  rest : List Lexeme
  /-- The characters of the text, from the start of the statement. -/
  text : List Char
  /-- The error recorded by an action, reported when the current token has been taken. -/
  pending : Option EngineError := none
  catalog : Database
  /-- The table a `CREATE TABLE` is building, when its name was free. -/
  draft : Option Table := none
  /-- The schema the draft goes into. -/
  draftSchema : SchemaName := .main
  /-- The token of the name of the object being created, where its stored text starts. -/
  nameToken : Option Lexeme := none
  /-- The direction written for an `INTEGER PRIMARY KEY` given as a table constraint. -/
  rowidKeyDescending : Bool := false
  /-- How many parameters the statement has. -/
  parameters : Nat := 0
  deriving Inhabited

/-- A reader of one statement. -/
abbrev Parser := StateT ParseState (Except EngineError)

namespace Parser

/-- The next token, or `none` at the end of the text. An illegal token ends reading. -/
def peek? : Parser (Option Lexeme) := do
  match (← get).rest with
  | t :: _ =>
    if t.kind = .illegal then
      throw { message := "unrecognized token: \"" ++ t.text ++ "\"", offset := some t.offset }
    else pure (some t)
  | [] => pure none

/-- The error for a token the grammar cannot take here. -/
def syntaxError (t : Option Lexeme) : EngineError :=
  match t with
  | some t => { message := "near \"" ++ t.text ++ "\": syntax error", offset := some t.offset }
  | none => { message := "incomplete input" }

/-- Fails at the next token. -/
def unexpected : Parser α := do
  throw (syntaxError (← peek?))

/-- Takes the next token; an error recorded before it is then reported. -/
def shift : Parser Lexeme := do
  let s ← get
  match s.rest with
  | t :: r =>
    set { s with rest := r }
    match s.pending with
    | some e => throw e
    | none => pure t
  | [] => throw (syntaxError none)

/-- The next token satisfies `p`. -/
def next (p : Lexeme → Bool) : Parser Bool := do
  match ← peek? with
  | some t => pure (p t)
  | none => pure false

/-- Takes the next token when it satisfies `p`. -/
def eat (p : Lexeme → Bool) : Parser (Option Lexeme) := do
  if ← next p then some <$> shift else pure none

/-- Takes the next token, which must satisfy `p`. -/
def expect (p : Lexeme → Bool) : Parser Lexeme := do
  if ← next p then shift else unexpected

/-- Takes the keyword `kw` when it comes next. -/
def eatKeyword (kw : String) : Parser Bool := do
  return (← eat (·.isKeyword kw)).isSome

/-- Takes the keyword `kw`, which must come next. -/
def expectKeyword (kw : String) : Parser Lexeme :=
  expect (·.isKeyword kw)

/-- Takes the symbol `s` when it comes next. -/
def eatSymbol (s : String) : Parser Bool := do
  return (← eat (·.isSymbol s)).isSome

/-- Takes the symbol `s`, which must come next. -/
def expectSymbol (s : String) : Parser Lexeme :=
  expect (·.isSymbol s)

/-- Records an error of an action; it is reported when the current token has been taken. -/
def record (e : EngineError) : Parser Unit :=
  modify fun s => { s with pending := some e }

/-- Records an error without an offset. -/
def recordMessage (m : String) : Parser Unit :=
  record { message := m }

/-- An error has been recorded. -/
def failing : Parser Bool := do
  return (← get).pending.isSome

/-- The catalog the statement sees. -/
def catalog : Parser Database := do
  return (← get).catalog

/-- The table being built, if any. -/
def draft? : Parser (Option Table) := do
  return (← get).draft

/-- Changes the table being built, if any. -/
def updateDraft (f : Table → Table) : Parser Unit :=
  modify fun s => { s with draft := s.draft.map f }

/-- The statement text from the token `a` up to the character index `stop`. -/
def textBetween (a : Lexeme) (stop : Nat) : Parser String := do
  return String.ofList (((← get).text.drop a.pos).take (stop - a.pos))

/-- The character index where the text ends. -/
def textEnd : Parser Nat := do
  return (← get).text.length

end Parser

end SqlSchema.Catalog
