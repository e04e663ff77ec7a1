import SqlSchema.Catalog.Parser

/-! # Reading engine expressions and queries

Expressions follow the engine's grammar and its binding strengths, loosest first: `OR`; `AND`; a
leading `NOT`; `IS`, `MATCH`, `LIKE`, `BETWEEN`, `IN`, `ISNULL`, `NOTNULL`, `=`, `==`, `!=`, `<>`;
`<`, `<=`, `>`, `>=`; `&`, `|`, `<<`, `>>`; `+`, `-`; `*`, `/`, `%`; `||`, `->`, `->>`; `COLLATE`; and
the leading `-`, `+` and `~`. Binary operators group to the left. The right side of a pattern
operator, `IS` and the bounds of `BETWEEN` bind tighter than the operator itself.

Queries are read in full, so that what follows them is found, but the catalog keeps of a query only
the tables its `FROM` clause names. Reading is bounded by a fuel argument, which the callers compute
from the number of tokens. -/

namespace SqlSchema.Catalog.Reader

open SqlSchema.Catalog.Parser

/-- How tightly a binary operator token binds, loosest `1`; `none` for other tokens. -/
def binaryLevel (t : Lexeme) : Option Nat :=
  if t.isKeyword "OR" then some 1
  else if t.isKeyword "AND" then some 2
  else if t.kind = .symbol then
    if ["=", "==", "!=", "<>"].contains t.text then some 4
    else if ["<", "<=", ">", ">="].contains t.text then some 5
    else if ["&", "|", "<<", ">>"].contains t.text then some 7
    else if ["+", "-"].contains t.text then some 8
    else if ["*", "/", "%"].contains t.text then some 9
    else if ["||", "->", "->>"].contains t.text then some 10
    else none
  else none

/-- The token starts a query. -/
def startsQuery (t : Lexeme) : Bool :=
  t.isKeyword "SELECT" || t.isKeyword "VALUES" || t.isKeyword "WITH"

/-- An integer literal whose value is zero. -/
def isZeroInteger (s : String) : Bool :=
  match s.toList with
  | '0' :: x :: r => if x = 'x' || x = 'X' then r.all (· = '0') else (x :: r).all (· = '0')
  | cs => cs.all (· = '0')

/-- Drops the separators of a number in place, as the engine does: the text it shows for a separator
    that does not stand between two digits is what has been written so far over the written text. -/
def separatorError? (s : String) : Option String :=
  let cs := s.toList
  let hex := match cs with
    | '0' :: x :: _ => x = 'x' || x = 'X'
    | _ => false
  let digit : Char → Bool := if hex then Scan.isHex else Char.isDigit
  let step : Nat × List Char × Option String → Nat × Char → Nat × List Char × Option String :=
    fun (n, out, err) (i, c) =>
      if c = '_' then
        let before := (cs[i - 1]?).map digit |>.getD false
        let after := (cs[i + 1]?).map digit |>.getD false
        if i > 0 && before && after then (n, out, err)
        else (n, out, some (String.ofList (out ++ cs.drop out.length)))
      else (n + 1, out ++ [c], err)
  (((List.range cs.length).zip cs).foldl step (0, [], none)).2.2

/-- An item of an ordered list: an expression, its direction, and the `NULLS` placement if written. -/
structure SortItem where
  term : Term
  descending : Bool
  nulls : Option String
  deriving Inhabited

/-- Takes a signed number of a type size. -/
def signedNumber : Parser Unit := do
  _ ← eat (fun t => t.isSymbol "+" || t.isSymbol "-")
  _ ← expect (fun t => t.kind = .integer || t.kind = .float)

/-- Takes the words of a type name after its first, `fuel` at most; the last word taken. -/
def typeWords : Nat → Lexeme → Parser Lexeme
  | 0, last => pure last
  | f + 1, last => do
    match ← eat (·.isTypeWord) with
    | some t => typeWords f t
    | none => pure last

/-- Reads a type: words, then an optional size `(n)` or `(n, m)`. Its first and last tokens. -/
def typeToken : Parser (Option (Lexeme × Lexeme)) := do
  match ← eat (·.isTypeWord) with
  | none => pure none
  | some first =>
    let last ← typeWords (← get).rest.length first
    if ← eatSymbol "(" then
      signedNumber
      if ← eatSymbol "," then signedNumber
      let close ← expectSymbol ")"
      pure (some (first, close))
    else pure (some (first, last))

/-- How a name token is quoted. -/
def quotingOf (t : Lexeme) : Quoting :=
  if t.text.startsWith "\"" then .double
  else if t.kind = .quotedName || t.kind = .string then .other
  else .bare

/-- Takes a name of a table, column or other object. -/
def name : Parser Lexeme :=
  expect (·.isName)

/-- Takes an optional conflict clause `ON CONFLICT` and its resolution. -/
def conflictClause : Parser Unit := do
  if ← eatKeyword "ON" then
    _ ← expectKeyword "CONFLICT"
    _ ← expect (·.isKeywordIn ["ROLLBACK", "ABORT", "FAIL", "IGNORE", "REPLACE"])

mutual

/-- Reads an expression whose operators bind at level `lvl` or tighter. -/
def termAt : Nat → Nat → Parser Term
  | 0, _ => unexpected
  | f + 1, lvl => do
    let lhs ← operand f
    extend f lvl lhs

/-- Reads an operand: a leading operator with its operand, or a primary expression. -/
def operand : Nat → Parser Term
  | 0 => unexpected
  | f + 1 => do
    match ← peek? with
    | some t =>
      if t.isKeyword "NOT" then
        _ ← shift
        return .unary (← termAt f 3)
      else if t.isSymbol "-" || t.isSymbol "+" || t.isSymbol "~" then
        _ ← shift
        return .unary (← termAt f 12)
      else primary f
    | none => unexpected

/-- Extends `lhs` with the operators that bind at level `lvl` or tighter. -/
def extend : Nat → Nat → Term → Parser Term
  | 0, _, lhs => pure lhs
  | f + 1, lvl, lhs => do
    match ← peek? with
    | none => pure lhs
    | some t =>
      match binaryLevel t with
      | some l =>
        if l < lvl then pure lhs
        else
          let op ← shift
          let rhs ← termAt f (l + 1)
          let e :=
            if l = 2 then Term.conj lhs rhs
            else if op.text = "->" || op.text = "->>" then .call op.text [lhs, rhs] op.offset
            else .binary lhs rhs
          extend f lvl e
      | none =>
        if lvl ≤ 4 && (t.isKeywordIn likeWords || t.isKeyword "MATCH") then
          let op ← shift
          extend f lvl (← pattern f lhs op)
        else if lvl ≤ 4 && (t.isKeyword "ISNULL" || t.isKeyword "NOTNULL") then
          _ ← shift
          extend f lvl (.nullTest lhs)
        else if lvl ≤ 4 && t.isKeyword "NOT" then
          _ ← shift
          match ← peek? with
          | some u =>
            if u.isKeyword "NULL" then
              _ ← shift
              extend f lvl (.nullTest lhs)
            else if u.isKeywordIn likeWords || u.isKeyword "MATCH" then
              let op ← shift
              extend f lvl (.unary (← pattern f lhs op))
            else if u.isKeyword "BETWEEN" then
              _ ← shift
              extend f lvl (.unary (← between f lhs))
            else if u.isKeyword "IN" then
              _ ← shift
              extend f lvl (.unary (← membership f lhs))
            else unexpected
          | none => unexpected
        else if lvl ≤ 4 && t.isKeyword "BETWEEN" then
          _ ← shift
          extend f lvl (← between f lhs)
        else if lvl ≤ 4 && t.isKeyword "IN" then
          _ ← shift
          extend f lvl (← membership f lhs)
        else if lvl ≤ 4 && t.isKeyword "IS" then
          _ ← shift
          _ ← eatKeyword "NOT"
          if ← eatKeyword "DISTINCT" then _ ← expectKeyword "FROM"
          let rhs ← termAt f 5
          extend f lvl (.truth lhs rhs)
        else if lvl ≤ 11 && t.isKeyword "COLLATE" then
          _ ← shift
          let c ← expect (·.isTypeWord)
          extend f lvl (.collate lhs (dequote c.text))
        else pure lhs

/-- Reads the pattern of a pattern operator `op` after `lhs`, and an optional escape. -/
def pattern : Nat → Term → Lexeme → Parser Term
  | 0, _, _ => unexpected
  | f + 1, lhs, op => do
    let rhs ← termAt f 5
    if ← eatKeyword "ESCAPE" then
      let esc ← termAt f 5
      return .call op.text [rhs, lhs, esc] op.offset
    else return .call op.text [rhs, lhs] op.offset

/-- Reads the bounds of `BETWEEN` after `lhs`. -/
def between : Nat → Term → Parser Term
  | 0, _ => unexpected
  | f + 1, lhs => do
    let lo ← termAt f 3
    _ ← expectKeyword "AND"
    let hi ← termAt f 5
    return .between lhs lo hi

/-- Reads the right side of `IN` after `lhs`: a list, a query, or a table. -/
def membership : Nat → Term → Parser Term
  | 0, _ => unexpected
  | f + 1, lhs => do
    if ← eatSymbol "(" then
      if ← next startsQuery then
        _ ← query f
        _ ← expectSymbol ")"
        return .inQuery lhs
      else if ← eatSymbol ")" then return .inList lhs []
      else
        let items ← terms f
        _ ← expectSymbol ")"
        return .inList lhs items
    else
      _ ← name
      if ← eatSymbol "." then _ ← name
      if ← eatSymbol "(" then
        if !(← eatSymbol ")") then
          _ ← terms f
          _ ← expectSymbol ")"
      return .inQuery lhs

/-- Reads a primary expression. -/
def primary : Nat → Parser Term
  | 0 => unexpected
  | f + 1 => do
    let some t ← peek? | unexpected
    if t.isSymbol "(" then
      _ ← shift
      if ← next startsQuery then
        _ ← query f
        _ ← expectSymbol ")"
        return .query
      else
        let items ← terms f
        _ ← expectSymbol ")"
        match items with
        | [e] => return e
        | _ => return .vector items
    else if t.kind = .integer then
      _ ← shift
      return .literal (some t.offset) (isZeroInteger t.text)
    else if t.kind = .float || t.kind = .blob || t.isKeyword "NULL" then
      _ ← shift
      return .literal (some t.offset) false
    else if t.kind = .separated then
      _ ← shift
      _ ← peek?
      match separatorError? t.text with
      | some shown => recordMessage ("unrecognized token: \"" ++ shown ++ "\"")
      | none => pure ()
      return .literal (some t.offset) false
    else if t.kind = .parameter then
      _ ← shift
      modify fun s => { s with parameters := s.parameters + 1 }
      return .param t.offset
    else if t.isKeywordIn clockWords then
      _ ← shift
      return .call t.text [] t.offset
    else if t.isKeyword "CAST" then
      _ ← shift
      _ ← expectSymbol "("
      let e ← termAt f 1
      _ ← expectKeyword "AS"
      let written ← match ← typeToken with
        | some (a, b) => textBetween a b.stop
        | none => pure ""
      _ ← expectSymbol ")"
      return .cast e (dequote written)
    else if t.isKeyword "CASE" then
      _ ← shift
      let subject ← if ← next (·.isKeyword "WHEN") then pure none else some <$> termAt f 1
      let arms ← caseArms f
      let fallback ← if ← eatKeyword "ELSE" then (fun e => [e]) <$> termAt f 1 else pure []
      _ ← expectKeyword "END"
      return .caseOf subject (arms ++ fallback)
    else if t.isKeyword "EXISTS" then
      _ ← shift
      _ ← expectSymbol "("
      _ ← query f
      _ ← expectSymbol ")"
      return .query
    else if t.isKeyword "RAISE" then
      _ ← shift
      _ ← expectSymbol "("
      if !(← eatKeyword "IGNORE") then
        _ ← expect (·.isKeywordIn ["ROLLBACK", "ABORT", "FAIL"])
        _ ← expectSymbol ","
        _ ← termAt f 1
      _ ← expectSymbol ")"
      return .raise
    else if t.isName then
      _ ← shift
      if (← next (·.isSymbol "(")) && (t.isIdOrIndexed || t.isKeywordIn joinWords) then
        _ ← shift
        call f t
      else if ← eatSymbol "." then
        if ← eatSymbol "*" then return .vector []
        let second ← name
        if ← eatSymbol "." then
          let third ← name
          return .dotted [dequote t.text, dequote second.text] (dequote third.text) t.offset
        else return .dotted [dequote t.text] (dequote second.text) t.offset
      else if t.kind = .string then return .string (dequote t.text) t.offset
      else return .name (dequote t.text) (quotingOf t) t.offset
    else unexpected

/-- Reads the arguments of a call of `fn` after its opening parenthesis. -/
def call : Nat → Lexeme → Parser Term
  | 0, _ => unexpected
  | f + 1, fn => do
    let name := dequote fn.text
    if ← eatSymbol "*" then
      _ ← expectSymbol ")"
      return .call name [] fn.offset
    else if ← eatSymbol ")" then return .call name [] fn.offset
    else
      _ ← eat (fun t => t.isKeyword "DISTINCT" || t.isKeyword "ALL")
      let args ← terms f
      if ← eatKeyword "ORDER" then
        _ ← expectKeyword "BY"
        _ ← sortList f
      _ ← expectSymbol ")"
      return .call name args fn.offset

/-- Reads `WHEN … THEN …` arms, at least one. -/
def caseArms : Nat → Parser (List Term)
  | 0 => unexpected
  | f + 1 => do
    _ ← expectKeyword "WHEN"
    let w ← termAt f 1
    _ ← expectKeyword "THEN"
    let th ← termAt f 1
    if ← next (·.isKeyword "WHEN") then return w :: th :: (← caseArms f)
    else return [w, th]

/-- Reads expressions separated by commas, at least one. -/
def terms : Nat → Parser (List Term)
  | 0 => unexpected
  | f + 1 => do
    let e ← termAt f 1
    if ← eatSymbol "," then return e :: (← terms f) else return [e]

/-- Reads one item of an ordered list. -/
def sortItem : Nat → Parser SortItem
  | 0 => unexpected
  | f + 1 => do
    let e ← termAt f 1
    let desc ← match ← eat (fun t => t.isKeyword "ASC" || t.isKeyword "DESC") with
      | some t => pure (t.isKeyword "DESC")
      | none => pure false
    let nulls ← if ← eatKeyword "NULLS" then
        some <$> ((·.text.toUpper) <$> expect (fun t => t.isKeyword "FIRST" || t.isKeyword "LAST"))
      else pure none
    return { term := e, descending := desc, nulls }

/-- Reads an ordered list, at least one item. -/
def sortList : Nat → Parser (List SortItem)
  | 0 => unexpected
  | f + 1 => do
    let i ← sortItem f
    if ← eatSymbol "," then return i :: (← sortList f) else return [i]

/-- Reads a query: an optional `WITH` clause, then selects joined by compound operators. A table of
    the `WITH` clause is no table of the catalog. -/
def query : Nat → Parser Query
  | 0 => unexpected
  | f + 1 => do
    let defined ← if ← eatKeyword "WITH" then
        _ ← eatKeyword "RECURSIVE"
        commonTables f
      else pure []
    let q ← compound f
    let isDefined (s : Source) : Bool := s.schema.isNone && defined.any (sameName · s.name)
    return { q with
      sources := q.sources.filter fun s => !isDefined s
      scope := q.scope.map fun
        | .table s => if isDefined s then .derived (some (s.asName.getD s.name)) else .table s
        | i => i }

/-- Reads the tables a `WITH` clause defines; their names. -/
def commonTables : Nat → Parser (List String)
  | 0 => unexpected
  | f + 1 => do
    let n ← name
    if ← eatSymbol "(" then
      _ ← nameList f
    _ ← expectKeyword "AS"
    _ ← eatKeyword "NOT"
    _ ← eatKeyword "MATERIALIZED"
    _ ← expectSymbol "("
    _ ← query f
    _ ← expectSymbol ")"
    if ← eatSymbol "," then return dequote n.text :: (← commonTables f)
    else return [dequote n.text]

/-- Reads names separated by commas, each with an optional collation and direction. -/
def nameList : Nat → Parser (List Lexeme)
  | 0 => unexpected
  | f + 1 => do
    let n ← name
    if ← eatKeyword "COLLATE" then _ ← expect (·.isTypeWord)
    _ ← eat (fun t => t.isKeyword "ASC" || t.isKeyword "DESC")
    if ← eatSymbol "," then return n :: (← nameList f)
    else
      _ ← expectSymbol ")"
      return [n]

/-- Reads selects joined by `UNION`, `UNION ALL`, `EXCEPT` and `INTERSECT`: the tables they read, and
    the result of the first. -/
def compound : Nat → Parser Query
  | 0 => unexpected
  | f + 1 => do
    let here ← simpleSelect f
    let more ← if ← eatKeyword "UNION" then
        _ ← eatKeyword "ALL"
        (·.sources) <$> compound f
      else if (← eatKeyword "EXCEPT") || (← eatKeyword "INTERSECT") then (·.sources) <$> compound f
      else pure []
    return { here with sources := here.sources ++ more }

/-- Reads one `SELECT` or `VALUES`: the tables it reads, its result columns and its `FROM` items. -/
def simpleSelect : Nat → Parser Query
  | 0 => unexpected
  | f + 1 => do
    if ← eatKeyword "VALUES" then
      let row ← valueRows f
      return { columns := row.map fun e => .term e none "" }
    _ ← expectKeyword "SELECT"
    _ ← eat (fun t => t.isKeyword "DISTINCT" || t.isKeyword "ALL")
    let columns ← resultColumns f
    let (sources, scope) ← if ← eatKeyword "FROM" then fromItems f else pure ([], [])
    if ← eatKeyword "WHERE" then _ ← termAt f 1
    if ← eatKeyword "GROUP" then
      _ ← expectKeyword "BY"
      _ ← terms f
    if ← eatKeyword "HAVING" then _ ← termAt f 1
    if ← eatKeyword "ORDER" then
      _ ← expectKeyword "BY"
      _ ← sortList f
    if ← eatKeyword "LIMIT" then
      _ ← termAt f 1
      if (← eatKeyword "OFFSET") || (← eatSymbol ",") then _ ← termAt f 1
    return { sources, columns, scope }

/-- Reads the rows of `VALUES`; the expressions of the first. -/
def valueRows : Nat → Parser (List Term)
  | 0 => unexpected
  | f + 1 => do
    _ ← expectSymbol "("
    let row ← terms f
    _ ← expectSymbol ")"
    if ← eatSymbol "," then _ ← valueRows f
    return row

/-- Reads the result columns of a select. -/
def resultColumns : Nat → Parser (List ResultColumn)
  | 0 => unexpected
  | f + 1 => do
    let here ← if ← eatSymbol "*" then pure (ResultColumn.all none)
      else
        match (← get).rest with
        | q :: dot :: star :: _ =>
          if q.isName && dot.isSymbol "." && star.isSymbol "*" then
            _ ← shift
            _ ← shift
            _ ← shift
            pure (ResultColumn.all (some (dequote q.text)))
          else resultTerm f
        | _ => resultTerm f
    if ← eatSymbol "," then return here :: (← resultColumns f) else return [here]

/-- Reads a result column that is an expression, with its optional alias. Its text runs from its first
    token to the token after it, without the blanks before that token. -/
def resultTerm : Nat → Parser ResultColumn
  | 0 => unexpected
  | f + 1 => do
    let some first ← peek? | unexpected
    let e ← termAt f 1
    let stop ← match ← peek? with
      | some t => pure t.pos
      | none => textEnd
    let text := String.ofList (dropTrailingSpaces (← textBetween first stop).toList)
    let asName ← if ← eatKeyword "AS" then (some ∘ (dequote ·.text)) <$> name
      else (·.map (dequote ·.text)) <$> eat (·.isTypeWord)
    return .term e asName text

/-- Reads the items of a `FROM` clause and the joins between them: the tables they name, and the
    items as the result's names see them. -/
def fromItems : Nat → Parser (List Source × List FromItem)
  | 0 => unexpected
  | f + 1 => do
    let (here, items) ← fromItem f
    let joined ← if (← eatSymbol ",") || (← eatKeyword "JOIN") then pure true
      else if ← next (·.isKeywordIn joinWords) then
        _ ← shift
        if !(← eatKeyword "JOIN") then
          _ ← name
          if !(← eatKeyword "JOIN") then
            _ ← name
            _ ← expectKeyword "JOIN"
        pure true
      else pure false
    if joined then
      let (more, moreItems) ← fromItems f
      return (here ++ more, items ++ moreItems)
    return (here, items)

/-- Reads one item of a `FROM` clause with its alias and join constraint: the tables it names, and
    the item as the result's names see it. -/
def fromItem : Nat → Parser (List Source × List FromItem)
  | 0 => unexpected
  | f + 1 => do
    let (here, items) ← if ← eatSymbol "(" then
        if ← next startsQuery then
          _ ← query f
          _ ← expectSymbol ")"
          pure ([], [FromItem.derived none])
        else
          let inner ← fromItems f
          _ ← expectSymbol ")"
          pure inner
      else
        let first ← name
        let (schema, table) ← if ← eatSymbol "." then
            pure (some (dequote first.text), dequote (← name).text)
          else pure (none, dequote first.text)
        if ← eatSymbol "(" then
          if !(← eatSymbol ")") then
            _ ← terms f
            _ ← expectSymbol ")"
          pure ([], [FromItem.derived (some table)])
        else
          let s : Source := { schema, name := table }
          pure ([s], [FromItem.table s])
    let asName ← if ← eatKeyword "AS" then (some ∘ (dequote ·.text)) <$> name
      else (·.map (dequote ·.text)) <$> eat (·.isTypeWord)
    let items := match asName, items with
      | some a, [FromItem.table s] => [FromItem.table { s with asName := some a }]
      | some a, [FromItem.derived _] => [FromItem.derived (some a)]
      | _, _ => items
    if ← eatKeyword "INDEXED" then
      _ ← expectKeyword "BY"
      _ ← name
    else if ← next (·.isKeyword "NOT") then
      _ ← shift
      _ ← expectKeyword "INDEXED"
    if ← eatKeyword "ON" then _ ← termAt f 1
    else if ← eatKeyword "USING" then
      _ ← expectSymbol "("
      _ ← nameList f
    return (here, items)

end

end SqlSchema.Catalog.Reader
