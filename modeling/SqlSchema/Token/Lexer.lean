import SqlSchema.Token

/-! # Reading tokens

The lexer splits statement text into tokens and never fails. Blanks (space, tab, line feed, form
feed, carriage return), line comments `-- ...` and block comments `/* ... */` separate tokens. An
unterminated quote, bracket, blob or block comment runs to the end of the text, and a character that
starts no token is a punctuation token of its own.

Every reader returns the token's characters and the rest of the text, which is never longer than
what it read from; `Lexer.tokens` is well-founded on the length of the text. -/

namespace SqlSchema.Lexer

/-- The ASCII blanks that separate tokens: space, tab, line feed, form feed and carriage return. -/
def isBlank (c : Char) : Bool :=
  c == ' ' || c == '\t' || c == '\n' || c == '\x0C' || c == '\r'

/-- A character that starts a bare word: an ASCII letter, `_`, or any non-ASCII character. -/
def isWordStart (c : Char) : Bool :=
  c.isAlpha || c == '_' || 0x80 ≤ c.toNat

/-- A character that continues a bare word: an ASCII letter or digit, `_`, `$`, or any non-ASCII
    character. -/
def isWordChar (c : Char) : Bool :=
  c.isAlphanum || c == '_' || c == '$' || 0x80 ≤ c.toNat

/-- An ASCII hexadecimal digit. -/
def isHexDigit (c : Char) : Bool :=
  c.isDigit || ('a' ≤ c && c ≤ 'f') || ('A' ≤ c && c ≤ 'F')

/-- Words that read as operators. -/
def operatorWords : List String :=
  ["AND", "AS", "BETWEEN", "CASE", "CAST", "COLLATE", "DISTINCT", "ELSE", "ESCAPE", "EXISTS",
    "GLOB", "IN", "IS", "LIKE", "MATCH", "NOT", "OR", "REGEXP"]

/-- Words that close an operand. -/
def closerWords : List String :=
  ["ASC", "DESC", "END", "ISNULL", "NOTNULL"]

/-- Operators of two characters, tried before any one-character symbol. -/
def pairOperators : List (List Char) :=
  [['|', '|'], ['<', '<'], ['<', '>'], ['<', '='], ['>', '>'], ['>', '='], ['=', '='], ['!', '=']]

/-- Symbols that are operators on their own. -/
def operatorSymbols : List Char :=
  ['+', '-', '*', '/', '%', '&', '|', '~', '<', '>', '=', '.', '!']

theorem dropWhile_length_le (p : α → Bool) (l : List α) : (l.dropWhile p).length ≤ l.length :=
  (List.dropWhile_suffix p).length_le

/-- The text after a block comment's opening: everything up to and including the first `*/`, or all
    of it when the comment is never closed. -/
def afterBlockComment : List Char → List Char
  | '*' :: '/' :: r => r
  | _ :: r => afterBlockComment r
  | [] => []

theorem afterBlockComment_length_le (cs : List Char) : (afterBlockComment cs).length ≤ cs.length := by
  fun_induction afterBlockComment cs <;> simp_all <;> omega

/-- The text after one blank or comment at the front, if the text starts with one. A line comment
    stops before its line feed. -/
def dropGap : List Char → Option (List Char)
  | [] => none
  | c :: r =>
    if isBlank c then some r
    else
      match c, r with
      | '-', '-' :: r' => some (r'.dropWhile (· != '\n'))
      | '/', '*' :: r' => some (afterBlockComment r')
      | _, _ => none

theorem dropGap_length_lt {cs r : List Char} (h : dropGap cs = some r) : r.length < cs.length := by
  unfold dropGap at h
  split at h
  · simp at h
  · rename_i c t
    split at h
    · simp at h; subst h; simp
    · split at h
      · rename_i r' _
        simp at h; subst h
        have := dropWhile_length_le (· != '\n') r'
        simp; omega
      · rename_i r' _
        simp at h; subst h
        have := afterBlockComment_length_le r'
        simp; omega
      · simp at h

/-- Drops blanks and comments from the front of the text. -/
def skipGaps (cs : List Char) : List Char :=
  match h : dropGap cs with
  | some r =>
    have := dropGap_length_lt h
    skipGaps r
  | none => cs
termination_by cs.length

theorem skipGaps_length_le (cs : List Char) : (skipGaps cs).length ≤ cs.length := by
  fun_induction skipGaps cs with
  | case1 cs r h ih => have := dropGap_length_lt h; omega
  | case2 => exact Nat.le_refl _

/-- Exponent digits after `e` or `E`: a sign is taken only together with the digit after it. -/
def exponentDigits : List Char → Option (List Char × List Char)
  | s :: d :: r =>
    if (s == '+' || s == '-') && d.isDigit then
      some (s :: (d :: r).takeWhile Char.isDigit, (d :: r).dropWhile Char.isDigit)
    else if s.isDigit then
      some ((s :: d :: r).takeWhile Char.isDigit, (s :: d :: r).dropWhile Char.isDigit)
    else none
  | [s] => if s.isDigit then some ([s], []) else none
  | [] => none

/-- The exponent of a number, `e` or `E` with an optional sign, taken only when a digit follows. -/
def exponentPart : List Char → List Char × List Char
  | e :: r =>
    if e == 'e' || e == 'E' then
      match exponentDigits r with
      | some p => (e :: p.1, p.2)
      | none => ([], e :: r)
    else ([], e :: r)
  | [] => ([], [])

/-- Digits after a decimal point, then an exponent. -/
def afterPoint (r : List Char) : List Char × List Char :=
  (r.takeWhile Char.isDigit ++ (exponentPart (r.dropWhile Char.isDigit)).1,
    (exponentPart (r.dropWhile Char.isDigit)).2)

/-- A decimal number that starts with `c`, a digit or a point: digits, then a point with the digits
    after it, then an exponent. -/
def decimalAfter (c : Char) (r : List Char) : List Char × List Char :=
  if c == '.' then ('.' :: (afterPoint r).1, (afterPoint r).2)
  else
    match r.dropWhile Char.isDigit with
    | '.' :: r' => (c :: r.takeWhile Char.isDigit ++ '.' :: (afterPoint r').1, (afterPoint r').2)
    | r' => (c :: r.takeWhile Char.isDigit ++ (exponentPart r').1, (exponentPart r').2)

/-- A number that starts with `c`: `0x` or `0X` with hexadecimal digits when a hexadecimal digit
    follows, else a decimal number. -/
def numberAfter (c : Char) (r : List Char) : List Char × List Char :=
  match c, r with
  | '0', x :: h :: r' =>
    if (x == 'x' || x == 'X') && isHexDigit h then
      ('0' :: x :: (h :: r').takeWhile isHexDigit, (h :: r').dropWhile isHexDigit)
    else decimalAfter '0' (x :: h :: r')
  | c, r => decimalAfter c r

/-- The kind of a bare word: an operator word, a closing word, or a plain word. -/
def wordKind (w : String) : TokenKind :=
  if operatorWords.any (sameWord w) then .operator
  else if closerWords.any (sameWord w) then .closer
  else .word

/-- The kind of a one-character symbol. -/
def symbolKind (c : Char) : TokenKind :=
  if c == '(' || c == ')' || c == ',' || c == ';' then .punct
  else if operatorSymbols.contains c then .operator
  else .punct

/-- Text up to the first `close`, and what follows that `close` (nothing when there is none). -/
def upTo (close : Char) (cs : List Char) : List Char × List Char :=
  (cs.takeWhile (· != close), (cs.dropWhile (· != close)).drop 1)

/-- Reads the token that starts with `c`, followed by `r`. -/
def readToken (c : Char) (r : List Char) : Token × List Char :=
  if c == '\x27' then
    let p := Quoted.unquote c r
    (⟨String.ofList p.1, .string⟩, p.2)
  else if c == '"' then
    let p := Quoted.unquote c r
    (⟨String.ofList p.1, .quoted⟩, p.2)
  else if c == Token.backquote then
    let p := Quoted.unquote c r
    (⟨String.ofList p.1, .backquoted⟩, p.2)
  else if c == '[' then
    let p := upTo ']' r
    (⟨String.ofList p.1, .bracketed⟩, p.2)
  else if (c == 'X' || c == 'x') && r.head? == some '\x27' then
    let p := upTo '\x27' r.tail
    (⟨String.ofList p.1, .blob⟩, p.2)
  else if c.isDigit || (c == '.' && (r.head?.map Char.isDigit).getD false) then
    let p := numberAfter c r
    (⟨String.ofList p.1, .numeric⟩, p.2)
  else if isWordStart c then
    let w := String.ofList (c :: r.takeWhile isWordChar)
    (⟨w, wordKind w⟩, r.dropWhile isWordChar)
  else
    match r with
    | d :: r' =>
      if pairOperators.contains [c, d] then (⟨String.ofList [c, d], .operator⟩, r')
      else (⟨String.singleton c, symbolKind c⟩, r)
    | [] => (⟨String.singleton c, symbolKind c⟩, [])

theorem exponentDigits_length_le {cs : List Char} {p : List Char × List Char}
    (h : exponentDigits cs = some p) : p.2.length ≤ cs.length := by
  unfold exponentDigits at h
  split at h
  · rename_i s d r
    split at h
    · simp at h; subst h
      have := dropWhile_length_le Char.isDigit (d :: r)
      simp at this ⊢; omega
    · split at h
      · simp at h; subst h
        exact dropWhile_length_le _ _
      · simp at h
  · split at h
    · simp at h; subst h; simp
    · simp at h
  · simp at h

theorem exponentPart_length_le (cs : List Char) : (exponentPart cs).2.length ≤ cs.length := by
  unfold exponentPart
  split
  · rename_i e r
    split
    · split
      · rename_i p hp
        have := exponentDigits_length_le hp
        simp; omega
      · simp
    · simp
  · simp

theorem afterPoint_length_le (r : List Char) : (afterPoint r).2.length ≤ r.length := by
  have h1 := dropWhile_length_le Char.isDigit r
  have h2 := exponentPart_length_le (r.dropWhile Char.isDigit)
  simp only [afterPoint]
  omega

theorem decimalAfter_length_le (c : Char) (r : List Char) :
    (decimalAfter c r).2.length ≤ r.length := by
  have h1 := dropWhile_length_le Char.isDigit r
  unfold decimalAfter
  split
  · exact afterPoint_length_le r
  · split
    · rename_i r' hr
      have := afterPoint_length_le r'
      rw [hr] at h1
      simp at h1 ⊢
      omega
    · have := exponentPart_length_le (r.dropWhile Char.isDigit)
      simp only
      omega

theorem numberAfter_length_le (c : Char) (r : List Char) :
    (numberAfter c r).2.length ≤ r.length := by
  unfold numberAfter
  split
  · rename_i x h r'
    split
    · have := dropWhile_length_le isHexDigit (h :: r'); simp at this ⊢; omega
    · exact decimalAfter_length_le _ _
  · exact decimalAfter_length_le _ _

theorem upTo_length_le (close : Char) (cs : List Char) : (upTo close cs).2.length ≤ cs.length := by
  have := dropWhile_length_le (· != close) cs
  simp only [upTo, List.length_drop]
  omega

/-- The rest after a token is never longer than the text after its first character. -/
theorem readToken_length_le (c : Char) (r : List Char) : (readToken c r).2.length ≤ r.length := by
  unfold readToken
  split
  · exact Quoted.unquote_length_le _ _
  split
  · exact Quoted.unquote_length_le _ _
  split
  · exact Quoted.unquote_length_le _ _
  split
  · exact upTo_length_le _ _
  split
  · have := upTo_length_le '\x27' r.tail
    simp only [List.length_tail] at this
    simp only
    omega
  split
  · exact numberAfter_length_le c r
  split
  · exact dropWhile_length_le _ _
  · split
    · split
      · simp
      · simp
    · simp

/-- The tokens of the text, in order. -/
def tokens (cs : List Char) : List Token :=
  match h : skipGaps cs with
  | [] => []
  | c :: r =>
    have : (readToken c r).2.length < cs.length := by
      have h1 := readToken_length_le c r
      have h2 := skipGaps_length_le cs
      rw [h] at h2
      simp at h2
      omega
    (readToken c r).1 :: tokens (readToken c r).2
termination_by cs.length

end SqlSchema.Lexer

namespace SqlSchema

/-- The tokens of statement text. -/
def tokenize (s : String) : List Token :=
  Lexer.tokens s.toList

end SqlSchema
