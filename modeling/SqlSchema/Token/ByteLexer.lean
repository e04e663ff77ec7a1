import SqlSchema.Token.Lexer

/-! # Reading tokens by byte offsets

The lexer read as its source reads it: over the UTF-8 bytes of the statement. A position is a byte
offset, the loops test one byte at a time, and a token's text is cut out of the statement between
two offsets. Reading a byte that is not there, or cutting the text between offsets that are out of
order, past its end or inside a character, is a `Fault`: the places where the source would panic.

A byte is tested as the character of the same code, so the tests of `SqlSchema.Lexer` serve here
too: a byte of 0x80 or more is not ASCII, and those tests treat it as they treat every character
past ASCII. -/

namespace SqlSchema.ByteLexer

/-- A read that has no result: a byte index out of range, or a cut of the text whose ends are out of
    order or not both character boundaries. -/
inductive Fault where
  | index (pos : Nat)
  | slice (start stop : Nat)
  deriving Repr, DecidableEq

/-- A read of the text, which gives a value or faults. -/
abbrev Read := Except Fault

@[simp]
theorem bind_eq_ok {α β : Type} {m : Read α} {f : α → Read β} {b : β} :
    m >>= f = .ok b ↔ ∃ a, m = .ok a ∧ f a = .ok b := by
  cases m <;> simp [bind, Except.bind]

@[simp]
theorem map_eq_ok {α β : Type} {m : Read α} {f : α → β} {b : β} :
    f <$> m = .ok b ↔ ∃ a, m = .ok a ∧ f a = b := by
  cases m <;> simp [Functor.map, Except.map]

/-- A byte as the character of the same code. -/
def byteChar (b : UInt8) : Char := Char.ofUInt8 b

/-- The byte at offset `pos`, if there is one. -/
def byte? (x : String) (pos : Nat) : Option UInt8 := x.toUTF8[pos]?

/-- The byte at offset `pos` as a character, if there is one. -/
def char? (x : String) (pos : Nat) : Option Char := (byte? x pos).map byteChar

/-- The byte at offset `pos`, which must be there. -/
def byteAt (x : String) (pos : Nat) : Read UInt8 :=
  match byte? x pos with
  | some b => .ok b
  | none => .error (.index pos)

theorem byte?_eq_none_iff {x : String} {pos : Nat} : byte? x pos = none ↔ x.utf8ByteSize ≤ pos := by
  simp [byte?]

theorem lt_of_byte?_eq_some {x : String} {pos : Nat} {b : UInt8} (h : byte? x pos = some b) :
    pos < x.utf8ByteSize :=
  Nat.lt_of_not_le fun hle => by simp [byte?_eq_none_iff.mpr hle] at h

theorem char?_eq_some_iff {x : String} {pos : Nat} {c : Char} :
    char? x pos = some c ↔ ∃ b, byte? x pos = some b ∧ byteChar b = c := by
  simp [char?]

/-- The text between the offsets `start` and `stop`, which must be in order and both at a character
    boundary, at most the end. -/
def slice (x : String) (start stop : Nat) : Read String :=
  if start ≤ stop ∧ String.Pos.Raw.IsValid x ⟨start⟩ ∧ String.Pos.Raw.IsValid x ⟨stop⟩ then
    .ok (String.Pos.Raw.extract x ⟨start⟩ ⟨stop⟩)
  else .error (.slice start stop)

theorem slice_le {x : String} {start stop : Nat} {s : String} (h : slice x start stop = .ok s) :
    start ≤ stop ∧ stop ≤ x.utf8ByteSize := by
  unfold slice at h
  split at h
  · rename_i hv
    exact ⟨hv.1, hv.2.2.le_utf8ByteSize⟩
  · simp at h

/-- The offset of the first byte from `pos` on that fails `p`, or the end of the text. -/
def skipWhile (p : Char → Bool) (x : String) (pos : Nat) : Read Nat :=
  if h : pos < x.utf8ByteSize then do
    let b ← byteAt x pos
    if p (byteChar b) then skipWhile p x (pos + 1) else .ok pos
  else .ok pos
termination_by x.utf8ByteSize - pos

theorem skipWhile_ge {p : Char → Bool} {x : String} {pos q : Nat} (h : skipWhile p x pos = .ok q) :
    pos ≤ q := by
  fun_induction skipWhile p x pos with
  | case1 pos hlt ih =>
    cases hb : byte? x pos with
    | none => simp [byteAt, hb, bind, Except.bind] at h
    | some b =>
      simp only [byteAt, hb, bind, Except.bind] at h
      split at h
      · have := ih h; omega
      · simp only [Except.ok.injEq] at h; omega
  | case2 => simp only [Except.ok.injEq] at h; omega

theorem skipWhile_of_byte {p : Char → Bool} {x : String} {pos : Nat} {b : UInt8} (hb : byte? x pos = some b) :
    skipWhile p x pos = if p (byteChar b) then skipWhile p x (pos + 1) else .ok pos := by
  rw [skipWhile, dif_pos (lt_of_byte?_eq_some hb)]
  simp only [byteAt, hb, bind, Except.bind]

theorem skipWhile_of_none {p : Char → Bool} {x : String} {pos : Nat} (hb : byte? x pos = none) :
    skipWhile p x pos = .ok pos := by
  rw [skipWhile, dif_neg (Nat.not_lt.mpr (byte?_eq_none_iff.mp hb))]

/-- A byte that passes the test is stepped over. -/
theorem skipWhile_gt {p : Char → Bool} {x : String} {pos q : Nat} {c : Char} (hc : char? x pos = some c)
    (hp : p c = true) (h : skipWhile p x pos = .ok q) : pos < q := by
  obtain ⟨b, hb, rfl⟩ := char?_eq_some_iff.mp hc
  rw [skipWhile_of_byte hb, if_pos hp] at h
  have := skipWhile_ge h
  omega

/-- The offset of the first `*/` from `pos` on, or an offset at most one before the end when there
    is none. -/
def commentStop (x : String) (pos : Nat) : Read Nat :=
  if h : pos + 1 < x.utf8ByteSize then do
    let b ← byteAt x pos
    let closes ← if byteChar b == '*' then (fun d => byteChar d == '/') <$> byteAt x (pos + 1) else pure false
    if closes then .ok pos else commentStop x (pos + 1)
  else .ok pos
termination_by x.utf8ByteSize - pos

theorem commentStop_ge {x : String} {pos q : Nat} (h : commentStop x pos = .ok q) : pos ≤ q := by
  fun_induction commentStop x pos with
  | case1 pos hlt ih =>
    cases hb : byte? x pos with
    | none => simp [byteAt, hb, bind, Except.bind] at h
    | some b =>
      simp only [byteAt, hb, bind, Except.bind] at h
      -- the byte after a star is read only to see whether it closes the comment
      split at h
      · cases hd : byte? x (pos + 1) with
        | none => simp [hd, Functor.map, Except.map] at h
        | some d =>
          simp only [hd, Functor.map, Except.map] at h
          split at h
          · simp only [Except.ok.injEq] at h; omega
          · have := ih h; omega
      · have := ih h; omega
  | case2 => simp only [Except.ok.injEq] at h; omega

/-- The offset after a block comment whose text starts at `pos`: after its `*/`, or the end of the
    text. -/
def commentEnd (x : String) (pos : Nat) : Read Nat :=
  (fun q => min (q + 2) x.utf8ByteSize) <$> commentStop x pos

/-- Skips blanks and comments from `pos`: the offset of the first byte that starts neither. A line
    comment stops before its line feed. -/
def skipGaps (x : String) (pos : Nat) : Read Nat :=
  if pos < x.utf8ByteSize then do
    let b ← byteAt x pos
    if Lexer.isBlank (byteChar b) then skipGaps x (pos + 1)
    else if byteChar b == '-' && char? x (pos + 1) == some '-' then
      match hq : skipWhile (· != '\n') x (pos + 2) with
      | .ok q =>
        have := skipWhile_ge hq
        skipGaps x q
      | .error e => .error e
    else if byteChar b == '/' && char? x (pos + 1) == some '*' then
      match hq : commentStop x (pos + 2) with
      | .ok q =>
        have := commentStop_ge hq
        skipGaps x (min (q + 2) x.utf8ByteSize)
      | .error e => .error e
    else .ok pos
  else .ok pos
termination_by x.utf8ByteSize - pos
decreasing_by all_goals omega

theorem skipGaps_ge {x : String} {pos q : Nat} (h : skipGaps x pos = .ok q) : pos ≤ q := by
  fun_induction skipGaps x pos with
  | case1 pos hlt ih₁ ih₂ ih₃ =>
    cases hb : byte? x pos with
    | none => simp [byteAt, hb, bind, Except.bind] at h
    | some b =>
      simp only [byteAt, hb, bind, Except.bind] at h
      split at h
      · have := ih₁ h; omega
      split at h
      · split at h
        · rename_i r hr
          have := skipWhile_ge hr; have := ih₂ r hr h; omega
        · simp at h
      split at h
      · split at h
        · rename_i r hr
          have := commentStop_ge hr; have := ih₃ r hr h; omega
        · simp at h
      · simp only [Except.ok.injEq] at h; omega
  | case2 => simp only [Except.ok.injEq] at h; omega

/-- The loop of a quoted token from `pos`: `value` is the text decoded so far, and `chunk` the offset
    where the text not yet copied into it starts. A doubled quote stands for one; a single one ends
    the token; without one the token runs to the end. -/
def quotedLoop (x : String) (q : Char) (value : String) (chunk pos : Nat) : Read (String × Nat) :=
  if h : pos < x.utf8ByteSize then do
    let b ← byteAt x pos
    if byteChar b == q then
      let piece ← slice x chunk pos
      if char? x (pos + 1) == some q then
        quotedLoop x q ((value ++ piece).push q) (pos + 2) (pos + 2)
      else .ok (value ++ piece, pos + 1)
    else quotedLoop x q value chunk (pos + 1)
  else do
    let piece ← slice x chunk x.utf8ByteSize
    .ok (value ++ piece, pos)
termination_by x.utf8ByteSize - pos

theorem quotedLoop_ge {x : String} {q : Char} {value : String} {chunk pos : Nat} {r : String × Nat}
    (h : quotedLoop x q value chunk pos = .ok r) : pos ≤ r.2 := by
  fun_induction quotedLoop x q value chunk pos with
  | case1 value chunk pos hlt ih₁ ih₂ =>
    cases hb : byte? x pos with
    | none => simp [byteAt, hb, bind, Except.bind] at h
    | some b =>
      simp only [byteAt, hb, bind, Except.bind] at h
      split at h
      · cases hs : slice x chunk pos with
        | error e => simp [hs] at h
        | ok piece =>
          simp only [hs] at h
          split at h
          · have := ih₁ piece h; omega
          · simp only [Except.ok.injEq] at h; subst h; simp
      · have := ih₂ h; omega
  | case2 value chunk pos hge =>
    cases hs : slice x chunk x.utf8ByteSize with
    | error e => simp [hs, bind, Except.bind] at h
    | ok piece => simp only [hs, bind, Except.bind, Except.ok.injEq] at h; subst h; simp

/-- A string or a quoted name whose opening quote `q` is at `pos`. -/
def readQuoted (x : String) (q : Char) (kind : TokenKind) (pos : Nat) : Read (Token × Nat) :=
  (fun (text, stop) => (⟨text, kind⟩, stop)) <$> quotedLoop x q "" (pos + 1) (pos + 1)

theorem readQuoted_gt {x : String} {q : Char} {kind : TokenKind} {pos : Nat} {r : Token × Nat}
    (h : readQuoted x q kind pos = .ok r) : pos < r.2 := by
  obtain ⟨⟨text, stop⟩, hloop, rfl⟩ := map_eq_ok.mp h
  have := quotedLoop_ge hloop
  simp only at this ⊢
  omega

/-- The byte offset of the first `c` in `s`, if there is one. -/
def findChar (s : String) (c : Char) : Option Nat :=
  if s.toList.contains c then some (String.ofList (s.toList.takeWhile (· != c))).utf8ByteSize else none

/-- A bracketed name or a blob, whose text starts at `start` and runs up to the first `close`, or to
    the end when there is none. -/
def readDelimited (x : String) (close : Char) (kind : TokenKind) (start : Nat) : Read (Token × Nat) := do
  let tail ← slice x start x.utf8ByteSize
  let stop := ((findChar tail close).map (start + ·)).getD x.utf8ByteSize
  let text ← slice x start stop
  .ok (⟨text, kind⟩, min (stop + 1) x.utf8ByteSize)

theorem readDelimited_ge {x : String} {close : Char} {kind : TokenKind} {start : Nat} {r : Token × Nat}
    (h : readDelimited x close kind start = .ok r) : start ≤ r.2 := by
  simp only [readDelimited, bind_eq_ok, Except.ok.injEq] at h
  obtain ⟨tail, -, text, htext, rfl⟩ := h
  have := slice_le htext
  simp only
  omega

/-- The offset after the exponent of a number, if one starts at `pos`: `e` or `E` with an optional
    sign, taken only when a digit follows. -/
def exponentEnd (x : String) (pos : Nat) : Read Nat :=
  if char? x pos == some 'e' || char? x pos == some 'E' then
    let digitsAt := if char? x (pos + 1) == some '+' || char? x (pos + 1) == some '-' then 2 else 1
    if ((char? x (pos + digitsAt)).map Char.isDigit).getD false then skipWhile Char.isDigit x (pos + digitsAt)
    else .ok pos
  else .ok pos

theorem exponentEnd_ge {x : String} {pos q : Nat} (h : exponentEnd x pos = .ok q) : pos ≤ q := by
  unfold exponentEnd at h
  split at h
  · -- the digits of the exponent start one or two bytes on
    dsimp only at h
    generalize (if (char? x (pos + 1) == some '+' || char? x (pos + 1) == some '-') = true then 2 else 1) = k at h
    split at h
    · have := skipWhile_ge h; omega
    · simp only [Except.ok.injEq] at h; omega
  · simp only [Except.ok.injEq] at h; omega

/-- The offset after the decimal number that starts at `start`: digits, a point with the digits
    after it, and an exponent. -/
def decimalEnd (x : String) (start : Nat) : Read Nat := do
  let whole ← skipWhile Char.isDigit x start
  let point ← if char? x whole == some '.' then skipWhile Char.isDigit x (whole + 1) else pure whole
  exponentEnd x point

/-- The offset after the number that starts at `start`: `0x` or `0X` with hexadecimal digits when a
    hexadecimal digit follows, else a decimal number. -/
def numberEnd (x : String) (start : Nat) : Read Nat := do
  let b ← byteAt x start
  if byteChar b == '0' && (char? x (start + 1) == some 'x' || char? x (start + 1) == some 'X') &&
      ((char? x (start + 2)).map Lexer.isHexDigit).getD false then
    skipWhile Lexer.isHexDigit x (start + 2)
  else decimalEnd x start

/-- A number steps over its first character: a digit, or a point before a digit. -/
theorem numberEnd_gt {x : String} {start stop : Nat} {c : Char} (hc : char? x start = some c)
    (hnum : c.isDigit = true ∨ c = '.') (h : numberEnd x start = .ok stop) : start < stop := by
  obtain ⟨b, hb, rfl⟩ := char?_eq_some_iff.mp hc
  simp only [numberEnd, byteAt, hb, bind_eq_ok, Except.ok.injEq, exists_eq_left'] at h
  split at h
  · have := skipWhile_ge h; omega
  · obtain ⟨whole, hwhole, h⟩ := bind_eq_ok.mp h
    -- after the digits either something was read, or the first character is the point
    have hfirst : start < whole ∨ char? x whole = some '.' := by
      rcases hnum with hd | hp
      · exact .inl (skipWhile_gt hc hd hwhole)
      · rw [skipWhile_of_byte hb, if_neg (by simp [hp])] at hwhole
        cases hwhole
        exact .inr (by rw [hc, hp])
    split at h
    · obtain ⟨point, hpoint, hexp⟩ := bind_eq_ok.mp h
      have := skipWhile_ge hwhole; have := skipWhile_ge hpoint; have := exponentEnd_ge hexp; omega
    · rename_i hnot
      have := exponentEnd_ge h
      rcases hfirst with hlt | hpt
      · omega
      · simp [hpt] at hnot

/-- A number that starts at `start`. -/
def readNumber (x : String) (start : Nat) : Read (Token × Nat) := do
  let stop ← numberEnd x start
  let text ← slice x start stop
  .ok (⟨text, .numeric⟩, stop)

theorem readNumber_gt {x : String} {start : Nat} {c : Char} {r : Token × Nat} (hc : char? x start = some c)
    (hnum : c.isDigit = true ∨ c = '.') (h : readNumber x start = .ok r) : start < r.2 := by
  simp only [readNumber, bind_eq_ok, Except.ok.injEq] at h
  obtain ⟨stop, hstop, text, -, rfl⟩ := h
  exact numberEnd_gt hc hnum hstop

/-- A bare word that starts at `start`. -/
def readWord (x : String) (start : Nat) : Read (Token × Nat) := do
  let stop ← skipWhile Lexer.isWordChar x start
  let text ← slice x start stop
  .ok (⟨text, Lexer.wordKind text⟩, stop)

theorem readWord_gt {x : String} {start : Nat} {c : Char} {r : Token × Nat} (hc : char? x start = some c)
    (hw : Lexer.isWordStart c = true) (h : readWord x start = .ok r) : start < r.2 := by
  simp only [readWord, bind_eq_ok, Except.ok.injEq] at h
  obtain ⟨stop, hstop, text, -, rfl⟩ := h
  have hcont : Lexer.isWordChar c = true := by
    simp only [Lexer.isWordStart, Bool.or_eq_true] at hw
    rcases hw with (ha | hu) | hh
    · simp [Lexer.isWordChar, Char.isAlphanum, ha]
    · simp [Lexer.isWordChar, hu]
    · simp [Lexer.isWordChar, hh]
  exact skipWhile_gt hc hcont hstop

/-- Whether the two bytes at `start` are an operator of two characters. -/
def pairAt (x : String) (start : Nat) : Bool :=
  match char? x start, char? x (start + 1) with
  | some c, some d => Lexer.pairOperators.contains [c, d]
  | _, _ => false

/-- A symbol at `start`: an operator of two bytes, or else one character. -/
def readSymbol (x : String) (start : Nat) : Read (Token × Nat) :=
  if pairAt x start then do
    let text ← slice x start (start + 2)
    .ok (⟨text, .operator⟩, start + 2)
  else do
    let b ← byteAt x start
    let tail ← slice x start x.utf8ByteSize
    let width := (tail.toList.head?.map Char.utf8Size).getD 1
    let text ← slice x start (start + width)
    .ok (⟨text, Lexer.symbolKind (byteChar b)⟩, start + width)

theorem readSymbol_gt {x : String} {start : Nat} {r : Token × Nat} (h : readSymbol x start = .ok r) :
    start < r.2 := by
  unfold readSymbol at h
  split at h
  · simp only [bind_eq_ok, Except.ok.injEq] at h
    obtain ⟨text, -, rfl⟩ := h
    simp
  · simp only [bind_eq_ok, Except.ok.injEq] at h
    obtain ⟨b, -, tail, -, text, -, rfl⟩ := h
    -- a character takes at least one byte
    have : 0 < (tail.toList.head?.map Char.utf8Size).getD 1 := by
      cases tail.toList.head? <;> simp [Char.utf8Size_pos]
    exact Nat.lt_add_of_pos_right this

/-- Reads the token at the first offset from `pos` on that is not in a gap, with the offset after
    it; `none` at the end of the text. -/
def nextToken (x : String) (pos : Nat) : Read (Option (Token × Nat)) := do
  let pos ← skipGaps x pos
  match char? x pos with
  | none => .ok none
  | some c =>
    some <$>
      if c == '\x27' then readQuoted x c .string pos
      else if c == '"' then readQuoted x c .quoted pos
      else if c == Token.backquote then readQuoted x c .backquoted pos
      else if c == '[' then readDelimited x ']' .bracketed (pos + 1)
      else if (c == 'X' || c == 'x') && char? x (pos + 1) == some '\x27' then
        readDelimited x '\x27' .blob (pos + 2)
      else if c.isDigit || (c == '.' && ((char? x (pos + 1)).map Char.isDigit).getD false) then
        readNumber x pos
      else if Lexer.isWordStart c then readWord x pos
      else readSymbol x pos

/-- Every token takes at least one byte. -/
theorem nextToken_advances {x : String} {pos q : Nat} {t : Token} (h : nextToken x pos = .ok (some (t, q))) :
    x.utf8ByteSize - q < x.utf8ByteSize - pos := by
  simp only [nextToken, bind_eq_ok] at h
  obtain ⟨p, hp, h⟩ := h
  have := skipGaps_ge hp
  split at h
  · simp at h
  · rename_i c hc
    have : p < x.utf8ByteSize := by
      obtain ⟨b, hb, -⟩ := char?_eq_some_iff.mp hc
      exact lt_of_byte?_eq_some hb
    obtain ⟨r, hr, hrq⟩ := map_eq_ok.mp h
    simp only [Option.some.injEq] at hrq
    subst hrq
    -- the reader the first byte chooses steps over it
    have : p < q := by
      split at hr
      · exact readQuoted_gt hr
      split at hr
      · exact readQuoted_gt hr
      split at hr
      · exact readQuoted_gt hr
      split at hr
      · have := readDelimited_ge hr; omega
      split at hr
      · have := readDelimited_ge hr; omega
      split at hr
      · rename_i hnum
        refine readNumber_gt hc ?_ hr
        simp only [Bool.or_eq_true, Bool.and_eq_true, beq_iff_eq] at hnum
        exact hnum.imp_right And.left
      split at hr
      · rename_i hw
        exact readWord_gt hc hw hr
      · exact readSymbol_gt hr
    omega

/-- The tokens of the text from `pos` on. -/
def tokens (x : String) (pos : Nat) : Read (List Token) :=
  match h : nextToken x pos with
  | .ok none => .ok []
  | .ok (some (t, q)) =>
    have := nextToken_advances h
    (t :: ·) <$> tokens x q
  | .error e => .error e
termination_by x.utf8ByteSize - pos

/-- The tokens of statement text, read by byte offsets. -/
def tokenize (x : String) : Read (List Token) :=
  tokens x 0

end SqlSchema.ByteLexer
