import SqlSchema.Text.Quoted

/-! # Tokens

A token is a piece of statement text with its kind: a bare word, a name in one of three quotings, a
string, blob or number literal, an operator, a word that closes an operand, or punctuation. Its text
is decoded: quotes are stripped and a doubled quote stands for one. `Token.render` writes a token back
in its source form, so that reading the rendered text gives the token again. -/

namespace SqlSchema

/-- The kinds of token. -/
inductive TokenKind where
  /-- A bare word that is neither an operator word nor a closing word. -/
  | word
  /-- A name in double quotes. -/
  | quoted
  /-- A name in square brackets. -/
  | bracketed
  /-- A name in backquotes. -/
  | backquoted
  /-- A string in single quotes. -/
  | string
  /-- A blob literal, `X'..'`; the text is what stands between the quotes. -/
  | blob
  /-- A number, decimal or hexadecimal. -/
  | numeric
  /-- A symbol operator or one of the operator words (`AND`, `COLLATE`, `NOT`, ...). -/
  | operator
  /-- A word that closes an operand: `ASC`, `DESC`, `END`, `ISNULL`, `NOTNULL`. -/
  | closer
  /-- Any other single character, and `(`, `)`, `,`, `;`. -/
  | punct
  deriving DecidableEq, Repr, Inhabited

namespace TokenKind

/-- A name, bare or quoted. -/
def isIdentifier : TokenKind → Bool
  | .word | .quoted | .bracketed | .backquoted => true
  | _ => false

/-- A name in one of the three quotings. -/
def isQuotedIdentifier (k : TokenKind) : Bool :=
  k.isIdentifier && k != .word

/-- A token that can stand alone as an operand: a name or a literal. -/
def isOperand (k : TokenKind) : Bool :=
  k.isIdentifier || k == .string || k == .blob || k == .numeric

end TokenKind

/-- Two texts that are equal once ASCII letters are brought to one case. -/
def sameWord (a b : String) : Bool :=
  a.toUpper == b.toUpper

/-- A token: its decoded text and its kind. -/
structure Token where
  text : String
  kind : TokenKind
  deriving DecidableEq, Repr, Inhabited

namespace Token

/-- A bare word, operator or closing word whose text is `kw` up to ASCII case. Quoted names are never
    keywords. -/
def isKeyword (t : Token) (kw : String) : Bool :=
  (t.kind == .word || t.kind == .operator || t.kind == .closer) && sameWord t.text kw

/-- The punctuation token of the single ASCII character `c`. -/
def isPunct (t : Token) (c : Char) : Bool :=
  t.kind == .punct && t.text.toList == [c] && c.toNat < 0x80

/-- The operator token whose text is exactly `s`. -/
def isOperator (t : Token) (s : String) : Bool :=
  t.kind == .operator && t.text == s

/-- A token that can name a column or table: any identifier, or a string. -/
def isName (t : Token) : Bool :=
  t.kind.isIdentifier || t.kind == .string

/-- The backquote character. -/
def backquote : Char := Char.ofNat 0x60

/-- The apostrophe, which opens strings and blobs. -/
def apostrophe : Char := Char.ofNat 0x27

/-- The token in its source form: quotes restored with inner quotes doubled, brackets around a
    bracketed name, and `X'..'` around a blob. -/
def render (t : Token) : String :=
  match t.kind with
  | .quoted => Quoted.enquote '"' t.text
  | .backquoted => Quoted.enquote backquote t.text
  | .string => Quoted.enquote apostrophe t.text
  | .bracketed => "[" ++ t.text ++ "]"
  | .blob => "X'" ++ t.text ++ "'"
  | _ => t.text

/-- The synthetic operator that joins the operands of a list: a comma. -/
def comma : Token := ⟨",", .punct⟩

/-- The synthetic operator that joins two operands written side by side: empty text. -/
def juxtaposition : Token := ⟨"", .punct⟩

end Token

end SqlSchema
