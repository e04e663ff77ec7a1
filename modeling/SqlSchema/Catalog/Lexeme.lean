/-! # Engine tokens

The catalog reads statement text the way the database engine does, which differs from the statement
reader in many details. Blanks and comments separate tokens; a name may be quoted in double quotes,
backquotes or brackets; a string stands in single quotes; a blob is `x'…'` with an even number of
hexadecimal digits; a number is decimal or hexadecimal, and `_` may separate its digits; a parameter
is `?`, `?NNN`, or `:`, `@`, `$` or `#` before a name. A word is a run of letters, digits, `_`, `$` and
characters beyond ASCII; whether it is a keyword is decided later, by its text. Anything else is an
illegal token. Each token records where it starts, as a character index and as a byte offset of the
UTF-8 text, since error messages count bytes. -/

namespace SqlSchema.Catalog

/-- The kinds of engine tokens. Blanks and comments are not tokens. -/
inductive LexemeKind where
  | word
  | quotedName
  | string
  | blob
  | integer
  | float
  /-- A number whose digits are separated by `_`. -/
  | separated
  | parameter
  /-- An operator or punctuation; the text says which. -/
  | symbol
  | illegal
  deriving DecidableEq, Repr, Inhabited

/-- An engine token: its kind and text, its first character index, the character index after it,
    and its byte offset. -/
structure Lexeme where
  kind : LexemeKind
  text : String
  pos : Nat
  stop : Nat
  offset : Nat
  deriving Repr, Inhabited

/-- The number of bytes of a list of characters in UTF-8. -/
def byteLength : List Char → Nat
  | [] => 0
  | c :: cs => c.utf8Size + byteLength cs

namespace Scan

/-- A blank that may continue a run of blanks: space, tab, line feed, vertical tab, form feed, return. -/
def isSpace (c : Char) : Bool :=
  c = ' ' || c = '\t' || c = '\n' || c.toNat = 11 || c.toNat = 12 || c = '\r'

/-- A blank that may start a run of blanks: a vertical tab may not. -/
def startsSpace (c : Char) : Bool :=
  c = ' ' || c = '\t' || c = '\n' || c.toNat = 12 || c = '\r'

/-- A character of a word. -/
def isWordChar (c : Char) : Bool :=
  c.isAlphanum || c = '_' || c = '$' || c.toNat ≥ 0x80

/-- A hexadecimal digit. -/
def isHex (c : Char) : Bool :=
  c.isDigit || ('a' ≤ c && c ≤ 'f') || ('A' ≤ c && c ≤ 'F')

/-- The length of a run of digits and separators, and whether a separator occurred. -/
def digitRun (digit : Char → Bool) : List Char → Nat × Bool
  | c :: r =>
    if digit c || c = '_' then
      let (n, sep) := digitRun digit r
      (n + 1, sep || c = '_')
    else (0, false)
  | [] => (0, false)

/-- The kind of a number whose first character is `c`, and how many characters follow `c` in it.
    Word characters right after a number make the whole run illegal. -/
def number (c : Char) (r : List Char) : LexemeKind × Nat :=
  let cs := c :: r
  let (len, kind) : Nat × LexemeKind :=
    match r with
    | x :: h :: r' =>
      if c = '0' && (x = 'x' || x = 'X') && isHex h then
        let (n, sep) := digitRun isHex r'
        (n + 3, if sep then .separated else .integer)
      else decimal cs
    | _ => decimal cs
  let tail := ((cs.drop len).takeWhile isWordChar).length
  (if tail > 0 then .illegal else kind, len + tail - 1)
where
  /-- A decimal number: digits, a fraction, an exponent that has digits. -/
  decimal (cs : List Char) : Nat × LexemeKind :=
    let (n1, s1) := digitRun Char.isDigit cs
    let kind : LexemeKind := if s1 then .separated else .integer
    let (n2, kind) : Nat × LexemeKind :=
      match cs.drop n1 with
      | '.' :: r =>
        let (n, s) := digitRun Char.isDigit r
        (n1 + 1 + n, if s || kind = .separated then .separated else .float)
      | _ => (n1, kind)
    match cs.drop n2 with
    | e :: d :: r =>
      let signed := (d = '+' || d = '-') && (r.head?.map Char.isDigit).getD false
      if (e = 'e' || e = 'E') && (d.isDigit || signed) then
        let (n, s) := digitRun Char.isDigit r
        (n2 + 2 + n, if s || kind = .separated then .separated else .float)
      else (n2, kind)
    | _ => (n2, kind)

/-- How many characters follow an opening quote `q` up to and including the closing one, where a
    doubled quote stands for itself; `none` when the quote is not closed. -/
def quoted (q : Char) : List Char → Option Nat
  | [] => none
  | c :: r =>
    if c = q then
      match r with
      | d :: r' => if d = q then (quoted q r').map (· + 2) else some 1
      | [] => some 1
    else (quoted q r).map (· + 1)

/-- The name of a parameter after its sigil: how many characters it takes, how many of them are word
    characters, and whether an argument in parentheses was left open. -/
def paramName : List Char → Nat → Nat × Nat × Bool
  | [], n => (0, n, false)
  | c :: r, n =>
    if isWordChar c then
      let (k, m, bad) := paramName r (n + 1)
      (k + 1, m, bad)
    else if c = '(' && n > 0 then
      let inside := r.takeWhile (fun d => !isSpace d && d != ')')
      match r.drop inside.length with
      | ')' :: _ => (inside.length + 2, n, false)
      | _ => (inside.length + 1, n, true)
    else if c = ':' then
      match r with
      | ':' :: r' =>
        let (k, m, bad) := paramName r' n
        (k + 2, m, bad)
      | _ => (0, n, false)
    else (0, n, false)

/-- The characters of a block comment after its opening `/*`: up to and including the first `*/`
    whose star is not the opening one, or to the end of the text. -/
def commentBody (r : List Char) : Nat :=
  match r with
  | '*' :: '/' :: _ => 2
  | _ :: r' => commentBody r' + 1
  | [] => 0

/-- The characters after `x'` of a blob: its hexadecimal digits, then the closing quote; an odd
    count or another character makes it illegal, running to the next quote. -/
def blob (r : List Char) : LexemeKind × Nat :=
  let h := (r.takeWhile isHex).length
  match r.drop h with
  | '\'' :: _ => if h % 2 = 0 then (.blob, h + 1) else (.illegal, h + 1)
  | rest =>
    let skip := (rest.takeWhile (· != '\'')).length
    (.illegal, h + skip + (if (rest.drop skip).isEmpty then 0 else 1))

/-- The kind of the token that starts with `c` followed by `r`, or `none` for a blank or a
    comment, and how many characters of `r` belong to it. -/
def token (c : Char) (r : List Char) : Option LexemeKind × Nat :=
  if startsSpace c then (none, (r.takeWhile isSpace).length)
  else if c.toNat = 0xFEFF then (none, 0)
  else if c = '-' then
    match r with
    | '-' :: r' => (none, (r'.takeWhile (· != '\n')).length + 1)
    | '>' :: '>' :: _ => (some .symbol, 2)
    | '>' :: _ => (some .symbol, 1)
    | _ => (some .symbol, 0)
  else if c = '/' then
    match r with
    | '*' :: r' => if r'.isEmpty then (some .symbol, 0) else (none, commentBody r' + 1)
    | _ => (some .symbol, 0)
  else if c = '(' || c = ')' || c = ';' || c = '+' || c = '*' || c = '%' || c = ',' || c = '&' ||
      c = '~' then (some .symbol, 0)
  else if c = '=' then (some .symbol, if r.head? = some '=' then 1 else 0)
  else if c = '<' then
    (some .symbol, if r.head? = some '=' || r.head? = some '>' || r.head? = some '<' then 1 else 0)
  else if c = '>' then (some .symbol, if r.head? = some '=' || r.head? = some '>' then 1 else 0)
  else if c = '!' then if r.head? = some '=' then (some .symbol, 1) else (some .illegal, 0)
  else if c = '|' then (some .symbol, if r.head? = some '|' then 1 else 0)
  else if c = '\'' || c = '"' || c.toNat = 0x60 then
    match quoted c r with
    | some n => (some (if c = '\'' then .string else .quotedName), n)
    | none => (some .illegal, r.length)
  else if c = '.' then
    match r with
    | d :: _ => if d.isDigit then (number c r).map some id else (some .symbol, 0)
    | [] => (some .symbol, 0)
  else if c.isDigit then (number c r).map some id
  else if c = '[' then
    match r.findIdx? (· = ']') with
    | some i => (some .quotedName, i + 1)
    | none => (some .illegal, r.length)
  else if c = '?' then (some .parameter, (r.takeWhile Char.isDigit).length)
  else if c = '$' || c = '@' || c = ':' || c = '#' then
    let (k, m, bad) := paramName r 0
    (some (if bad || m = 0 then .illegal else .parameter), k)
  else if (c = 'x' || c = 'X') && r.head? = some '\'' then
    (blob (r.drop 1)).map some (· + 1)
  else if isWordChar c then (some .word, (r.takeWhile isWordChar).length)
  else (some .illegal, 0)

/-- The tokens of `cs`, the first starting at character index `pos` and byte offset `offset`. -/
def tokens (cs : List Char) (pos offset : Nat) : List Lexeme :=
  match cs with
  | [] => []
  | c :: r =>
    let (kind?, n) := token c r
    let taken := c :: r.take n
    let bytes := byteLength taken
    let rest := tokens (r.drop n) (pos + n + 1) (offset + bytes)
    match kind? with
    | some k => ⟨k, String.ofList taken, pos, pos + n + 1, offset⟩ :: rest
    | none => rest
termination_by cs.length
decreasing_by simp only [List.length_drop, List.length_cons]; omega

end Scan

/-- The statement text as the engine sees it: everything before the first NUL character. -/
def visibleText (s : String) : List Char :=
  s.toList.takeWhile (· != Char.ofNat 0)

/-- The engine tokens of a text. -/
def scan (cs : List Char) : List Lexeme :=
  Scan.tokens cs 0 0

/-- The characters without the blanks at their end. -/
def dropTrailingSpaces (cs : List Char) : List Char :=
  (cs.reverse.dropWhile Scan.isSpace).reverse

end SqlSchema.Catalog
