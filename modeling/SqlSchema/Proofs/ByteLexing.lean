import Mathlib
import SqlSchema.Proofs.ByteOffsets

/-! # The lexer over bytes reads what the lexer over characters reads

`ByteLexer.tokenize` reads the statement by byte offsets, as its source does, and faults wherever
the source would panic: a byte index past the end, or a cut of the text out of order, past the end
or inside a character. `ByteLexer.tokenize_never_faults` says that it never faults and gives the
tokens of `tokenize`.

Each token reader is taken from the offset of a text the character lexer works on to the offset of
the text it leaves, with the token it reads (the `_offsetIn` lemmas). A reader's first byte is the
first byte of the text's first character (`lead`), which is the character itself when it is ASCII;
the readers choose by ASCII characters only, so the byte reader chooses the reader the character
lexer chooses (`nextToken_offsetIn`). -/

namespace SqlSchema.ByteLexer

/-! ## Quoted text -/

theorem quotedLoop_of_byte {x : String} {q : Char} {value : String} {chunk pos : Nat} {b : UInt8}
    (hb : byte? x pos = some b) :
    quotedLoop x q value chunk pos =
      if byteChar b = q then
        slice x chunk pos >>= fun piece =>
          if char? x (pos + 1) = some q then quotedLoop x q ((value ++ piece).push q) (pos + 2) (pos + 2)
          else .ok (value ++ piece, pos + 1)
      else quotedLoop x q value chunk (pos + 1) := by
  rw [quotedLoop, dif_pos (lt_of_byte?_eq_some hb)]
  simp only [byteAt, hb, bind, Except.bind, beq_iff_eq]

theorem quotedLoop_of_none {x : String} {q : Char} {value : String} {chunk pos : Nat} (hb : byte? x pos = none) :
    quotedLoop x q value chunk pos = (fun piece => (value ++ piece, pos)) <$> slice x chunk x.utf8ByteSize := by
  rw [quotedLoop, dif_neg (Nat.not_lt.mpr (byte?_eq_none_iff.mp hb))]
  cases slice x chunk x.utf8ByteSize <;> rfl

/-- Bytes other than the quote are stepped over. -/
theorem quotedLoop_run {x : String} {q : Char} {value : String} {chunk pos : Nat} :
    ∀ n, (∀ i < n, ∃ b, byte? x (pos + i) = some b ∧ byteChar b ≠ q) →
      quotedLoop x q value chunk pos = quotedLoop x q value chunk (pos + n)
  | 0, _ => rfl
  | n + 1, h => by
    rw [quotedLoop_run n fun i hi => h i (by omega)]
    obtain ⟨b, hb, hne⟩ := h n (by omega)
    rw [quotedLoop_of_byte hb, if_neg hne, Nat.add_assoc]

/-- A character other than an ASCII quote has no byte that reads as the quote. -/
theorem quotedLoop_skip {x : String} {q : Char} (hq : q.toNat < 128) {value : String} {chunk : Nat}
    {c : Char} {r : List Char} (hs : c :: r <:+ x.toList) (hc : c ≠ q) :
    quotedLoop x q value chunk (offsetIn x (c :: r)).byteIdx = quotedLoop x q value chunk (offsetIn x r).byteIdx := by
  rw [quotedLoop_run c.utf8Size (fun i hi => ?_), offsetIn_cons hs]
  obtain ⟨b, hb, hmem⟩ := byte?_offsetIn_cons hs hi
  exact ⟨b, hb, fun h => hc ((byteChar_eq_iff hmem hq).mp h)⟩

/-- From the offset of a suffix, the quoted loop decodes what the character reader decodes and
    stops where it stops. `m` is the text read since the last cut. -/
theorem quotedLoop_offsetIn {x : String} {q : Char} (hq : q.toNat < 128) {cs : List Char} :
    ∀ (m : List Char) (value : String), m ++ cs <:+ x.toList →
      quotedLoop x q value (offsetIn x (m ++ cs)).byteIdx (offsetIn x cs).byteIdx =
        .ok (value ++ String.ofList (m ++ (Quoted.unquote q cs).1), (offsetIn x (Quoted.unquote q cs).2).byteIdx) := by
  -- the end of the text: what is left since the last cut is cut out
  have hend : ∀ (m : List Char) (value : String), m <:+ x.toList →
      quotedLoop x q value (offsetIn x m).byteIdx x.utf8ByteSize = .ok (value ++ String.ofList m, x.utf8ByteSize) := by
    intro m value hm
    rw [quotedLoop_of_none (byte?_eq_none_iff.mpr le_rfl), slice_offsetIn_end hm]
    rfl
  fun_induction Quoted.unquote q cs with
  | case1 =>
    intro m value hs
    simpa using hend m value (by simpa using hs)
  | case2 =>
    intro m value hs
    have hq' := (List.suffix_append m [q]).trans hs
    obtain ⟨b, hb, hbq⟩ := byte?_offsetIn_ascii hq' hq
    have hlast := offsetIn_ascii hq' hq
    rw [quotedLoop_of_byte hb, if_pos hbq, slice_offsetIn (r := [q]) hs]
    simp only [bind, Except.bind]
    rw [hlast, offsetIn_nil, char?_end, if_neg (by simp), List.append_nil]
  | case3 c hc =>
    intro m value hs
    have hc' := (List.suffix_append m [c]).trans hs
    rw [quotedLoop_skip hq hc' hc, offsetIn_nil, show m ++ [c] = (m ++ [c]) ++ [] by simp, hend _ _ (by simpa using hs)]
  | case4 r ih =>
    intro m value hs
    have h1 := (List.suffix_append m _).trans hs
    have h2 := (List.suffix_cons _ _).trans h1
    have hr := (List.suffix_cons _ _).trans h2
    obtain ⟨b, hb, hbq⟩ := byte?_offsetIn_ascii h1 hq
    have hnext : char? x ((offsetIn x (q :: q :: r)).byteIdx + 1) = some q := by
      rw [offsetIn_ascii h1 hq]; exact (char?_offsetIn_eq_some h2 hq).mpr rfl
    have hskip : (offsetIn x (q :: q :: r)).byteIdx + 2 = (offsetIn x r).byteIdx := by
      have := offsetIn_ascii h1 hq; have := offsetIn_ascii h2 hq; omega
    rw [quotedLoop_of_byte hb, if_pos hbq, slice_offsetIn hs]
    simp only [bind, Except.bind]
    have hrest := ih [] ((value ++ String.ofList m).push q) (by simpa using hr)
    rw [List.nil_append] at hrest
    rw [if_pos hnext, hskip, hrest]
    simp [← String.toList_inj]
  | case5 d r hd =>
    intro m value hs
    have h1 := (List.suffix_append m _).trans hs
    have h2 := (List.suffix_cons _ _).trans h1
    obtain ⟨b, hb, hbq⟩ := byte?_offsetIn_ascii h1 hq
    have hnext : char? x ((offsetIn x (q :: d :: r)).byteIdx + 1) ≠ some q := by
      rw [offsetIn_ascii h1 hq, Ne, char?_offsetIn_eq_some h2 hq]
      simpa using hd
    rw [quotedLoop_of_byte hb, if_pos hbq, slice_offsetIn hs]
    simp only [bind, Except.bind]
    rw [if_neg hnext, offsetIn_ascii h1 hq]
    simp
  | case6 c d r hc ih =>
    intro m value hs
    have h1 := (List.suffix_append m _).trans hs
    rw [quotedLoop_skip hq h1 hc, show m ++ c :: d :: r = (m ++ [c]) ++ d :: r by simp,
      ih (m ++ [c]) value (by simpa using hs)]
    simp

/-- A string or a quoted name from the offset of its opening quote. -/
theorem readQuoted_offsetIn {x : String} {q : Char} (hq : q.toNat < 128) {kind : TokenKind} {r : List Char}
    (hs : q :: r <:+ x.toList) :
    readQuoted x q kind (offsetIn x (q :: r)).byteIdx =
      .ok (⟨String.ofList (Quoted.unquote q r).1, kind⟩, (offsetIn x (Quoted.unquote q r).2).byteIdx) := by
  have hr := (List.suffix_cons q r).trans hs
  have hloop := quotedLoop_offsetIn hq [] "" (by simpa using hr)
  rw [List.nil_append] at hloop
  rw [readQuoted, offsetIn_ascii hs hq, hloop]
  simp [Functor.map, Except.map]

/-! ## Bracketed names and blobs -/

/-- The offset where the text up to the first `close` stops: at the `close`, or at the end when
    there is none. -/
theorem findChar_offsetIn {x : String} {close : Char} {cs : List Char} (hs : cs <:+ x.toList) :
    ((findChar (String.ofList cs) close).map ((offsetIn x cs).byteIdx + ·)).getD x.utf8ByteSize =
      (offsetIn x (cs.dropWhile (· != close))).byteIdx := by
  unfold findChar
  rw [String.toList_ofList]
  split
  · have := offsetIn_append (m := cs.takeWhile (· != close)) (r := cs.dropWhile (· != close))
      (by rwa [List.takeWhile_append_dropWhile])
    rw [List.takeWhile_append_dropWhile] at this
    simpa using this
  · rename_i hno
    have hnil : cs.dropWhile (· != close) = [] := List.dropWhile_eq_nil_iff.mpr fun c hc => by
      have : c ≠ close := fun h => hno (by simpa [← h] using hc)
      simpa using this
    simp [hnil]

/-- A bracketed name or a blob from the offset of its text. -/
theorem readDelimited_offsetIn {x : String} {close : Char} (hclose : close.toNat < 128) {kind : TokenKind}
    {cs : List Char} (hs : cs <:+ x.toList) :
    readDelimited x close kind (offsetIn x cs).byteIdx =
      .ok (⟨String.ofList (Lexer.upTo close cs).1, kind⟩, (offsetIn x (Lexer.upTo close cs).2).byteIdx) := by
  have hrest : cs.dropWhile (· != close) <:+ x.toList := (List.dropWhile_suffix _).trans hs
  have htext := slice_offsetIn (m := cs.takeWhile (· != close)) (r := cs.dropWhile (· != close))
    (by rwa [List.takeWhile_append_dropWhile])
  rw [List.takeWhile_append_dropWhile] at htext
  simp only [readDelimited, slice_offsetIn_end hs, bind, Except.bind, findChar_offsetIn hs, htext, Lexer.upTo]
  -- after the `close`, one byte on; without one, the end
  congr
  cases hd : cs.dropWhile (· != close) with
  | nil => simp
  | cons d t =>
    have hdc : d = close := by
      have := List.head_dropWhile_not (· != close) (l := cs) (by simp [hd])
      simpa [hd] using this
    subst hdc
    rw [hd] at hrest
    have := offsetIn_ascii hrest hclose
    have := utf8ByteSize_eq_of_suffix ((List.suffix_cons _ _).trans hrest)
    simp only [List.drop_succ_cons, List.drop_zero]
    omega

/-! ## Numbers -/

/-- The text after an exponent's sign, if it has one. -/
def afterSign (r : List Char) : List Char :=
  if r.head? = some '+' ∨ r.head? = some '-' then r.drop 1 else r

/-- What the character reader leaves after an exponent: the text after its digits when digits follow
    the `e` and the optional sign, else all of it. -/
theorem exponentPart_cons {e : Char} (he : e = 'e' ∨ e = 'E') (r : List Char) :
    (Lexer.exponentPart (e :: r)).2 =
      if ((afterSign r).head?.map Char.isDigit).getD false then (afterSign r).dropWhile Char.isDigit else e :: r := by
  have he' : (e == 'e' || e == 'E') = true := by simpa using he
  simp only [Lexer.exponentPart, he', if_true]
  rcases r with _ | ⟨s, _ | ⟨d, t⟩⟩
  · simp [Lexer.exponentDigits, afterSign]
  · by_cases hs : s = '+' ∨ s = '-'
    · have hnd : s.isDigit = false := by rcases hs with rfl | rfl <;> rfl
      simp [Lexer.exponentDigits, afterSign, hs, hnd]
    · by_cases hd : s.isDigit = true
      · simp [Lexer.exponentDigits, afterSign, hs, hd]
      · simp [Lexer.exponentDigits, afterSign, hs, hd]
  · by_cases hs : s = '+' ∨ s = '-'
    · have hnd : s.isDigit = false := by rcases hs with rfl | rfl <;> rfl
      by_cases hd : d.isDigit = true
      · simp [Lexer.exponentDigits, afterSign, hs, hd]
      · simp [Lexer.exponentDigits, afterSign, hs, hd, hnd]
    · have hs' : (s == '+' || s == '-') = false := by simpa using hs
      by_cases hd : s.isDigit = true
      · simp [Lexer.exponentDigits, afterSign, hs, hs', hd]
      · simp [Lexer.exponentDigits, afterSign, hs, hs', hd]

/-- From the offset of a suffix, the exponent ends where the character reader's exponent ends. -/
theorem exponentEnd_offsetIn {x : String} {cs : List Char} (hs : cs <:+ x.toList) :
    exponentEnd x (offsetIn x cs).byteIdx = .ok (offsetIn x (Lexer.exponentPart cs).2).byteIdx := by
  cases cs with
  | nil => simp [exponentEnd, Lexer.exponentPart]
  | cons e r =>
    have hr := (List.suffix_cons e r).trans hs
    unfold exponentEnd
    rw [char?_offsetIn_cons hs]
    by_cases he : e = 'e' ∨ e = 'E'
    · have hasc : e.toNat < 128 := by rcases he with rfl | rfl <;> decide
      rw [lead_of_ascii hasc, if_pos (by simpa using he), exponentPart_cons he]
      dsimp only
      -- the digits start after the `e` and the sign, one byte each
      have hds : afterSign r <:+ x.toList := by
        unfold afterSign; split
        · exact (List.drop_suffix 1 r).trans hr
        · exact hr
      have h1 := offsetIn_ascii hs hasc
      have hstart : (offsetIn x (e :: r)).byteIdx +
          (if (char? x ((offsetIn x (e :: r)).byteIdx + 1) == some '+' ||
              char? x ((offsetIn x (e :: r)).byteIdx + 1) == some '-') = true then 2 else 1) =
          (offsetIn x (afterSign r)).byteIdx := by
        rw [h1]
        unfold afterSign
        rcases r with _ | ⟨s, t⟩
        · simp only [offsetIn_nil, char?_end] at h1 ⊢
          simpa using h1
        · rw [char?_offsetIn_cons hr]
          by_cases hsign : s = '+' ∨ s = '-'
          · have hsasc : s.toNat < 128 := by rcases hsign with rfl | rfl <;> decide
            have h2 := offsetIn_ascii hr hsasc
            rw [lead_of_ascii hsasc, if_pos (by simpa using hsign)]
            simp only [List.head?_cons, Option.some.injEq, hsign, if_true, List.drop_succ_cons, List.drop_zero]
            omega
          · have hlead : ¬(lead s = '+' ∨ lead s = '-') := by
              rwa [lead_eq_iff (by decide), lead_eq_iff (by decide)]
            rw [if_neg (by simpa using hlead), if_neg (by simpa using hsign)]
            omega
      -- the test on the first digit reads the suffix's first character
      have hdig : ((char? x (offsetIn x (afterSign r)).byteIdx).map Char.isDigit).getD false =
          ((afterSign r).head?.map Char.isDigit).getD false := by
        rcases hcs : afterSign r with _ | ⟨d, t⟩
        · simp
        · rw [hcs] at hds
          rw [char?_offsetIn_cons hds]
          simp [uniform_isDigit.lead]
      rw [hstart, hdig]
      split_ifs
      · exact skipWhile_offsetIn uniform_isDigit hds
      · rfl
    · have hlead : ¬(lead e = 'e' ∨ lead e = 'E') := by
        rwa [lead_eq_iff (by decide), lead_eq_iff (by decide)]
      rw [if_neg (by simpa using hlead)]
      have he' : (e == 'e' || e == 'E') = false := by simpa using he
      simp [Lexer.exponentPart, he']

theorem ok_bind {α β : Type} (a : α) (f : α → Read β) : (Except.ok a : Read α) >>= f = f a := rfl

theorem decimalEnd_eq (x : String) (start : Nat) :
    decimalEnd x start = skipWhile Char.isDigit x start >>= fun whole =>
      (if char? x whole = some '.' then skipWhile Char.isDigit x (whole + 1) else .ok whole) >>= exponentEnd x := by
  unfold decimalEnd
  cases skipWhile Char.isDigit x start with
  | error e => rfl
  | ok whole =>
    simp only [ok_bind, beq_iff_eq]
    split <;> rfl

/-- From the offset of a decimal number's first character, a digit or a point, the number ends
    where the character reader's decimal number ends. -/
theorem decimalEnd_offsetIn {x : String} {c : Char} {r : List Char} (hs : c :: r <:+ x.toList)
    (hnum : c.isDigit = true ∨ c = '.') :
    decimalEnd x (offsetIn x (c :: r)).byteIdx = .ok (offsetIn x (Lexer.decimalAfter c r).2).byteIdx := by
  have hr := (List.suffix_cons c r).trans hs
  have hdr : r.dropWhile Char.isDigit <:+ x.toList := (List.dropWhile_suffix _).trans hr
  rw [decimalEnd_eq, skipWhile_offsetIn uniform_isDigit hs, ok_bind]
  by_cases hp : c = '.'
  · -- a point first: no digits before it, and the digits after it
    subst hp
    have hrhs : (Lexer.decimalAfter '.' r).2 = (Lexer.exponentPart (r.dropWhile Char.isDigit)).2 := by
      simp [Lexer.decimalAfter, Lexer.afterPoint]
    rw [hrhs, List.dropWhile_cons_of_neg (by decide), char?_offsetIn_cons hs, lead_of_ascii (by decide),
      if_pos rfl, offsetIn_ascii hs (by decide), skipWhile_offsetIn uniform_isDigit hr, ok_bind]
    exact exponentEnd_offsetIn hdr
  · have hd : c.isDigit = true := hnum.resolve_right hp
    have hc : (c == '.') = false := by simpa using hp
    rw [List.dropWhile_cons_of_pos hd]
    rcases hdw : r.dropWhile Char.isDigit with _ | ⟨e, t⟩
    · simp only [Lexer.decimalAfter, hc, hdw, offsetIn_nil, char?_end]
      simpa [hdw] using exponentEnd_offsetIn hdr
    · rw [hdw] at hdr
      by_cases he : e = '.'
      · -- a point after the digits, then the digits after it
        subst he
        have ht := (List.suffix_cons _ _).trans hdr
        have hrhs : (Lexer.decimalAfter c r).2 = (Lexer.exponentPart (t.dropWhile Char.isDigit)).2 := by
          simp [Lexer.decimalAfter, hc, hdw, Lexer.afterPoint]
        rw [hrhs, char?_offsetIn_cons hdr, lead_of_ascii (by decide), if_pos rfl, offsetIn_ascii hdr (by decide),
          skipWhile_offsetIn uniform_isDigit ht, ok_bind]
        exact exponentEnd_offsetIn ((List.dropWhile_suffix _).trans ht)
      · have hrhs : (Lexer.decimalAfter c r).2 = (Lexer.exponentPart (e :: t)).2 := by
          simp [Lexer.decimalAfter, hc, hdw, he]
        rw [hrhs, char?_offsetIn_cons hdr, if_neg (by rwa [Option.some.injEq, lead_eq_iff (by decide)]), ok_bind]
        exact exponentEnd_offsetIn hdr

/-- A hexadecimal number starts with `0x` or `0X` and a hexadecimal digit. -/
def HexStart (c : Char) (r : List Char) : Prop :=
  c = '0' ∧ ∃ y h r', r = y :: h :: r' ∧ (y = 'x' ∨ y = 'X') ∧ Lexer.isHexDigit h = true

theorem numberAfter_of_not_hexStart {c : Char} {r : List Char} (h : ¬HexStart c r) :
    Lexer.numberAfter c r = Lexer.decimalAfter c r := by
  unfold Lexer.numberAfter
  split
  · rename_i y d r'
    rw [if_neg]
    simp only [Bool.and_eq_true, Bool.or_eq_true, beq_iff_eq]
    exact fun hx => h ⟨rfl, y, d, r', rfl, hx⟩
  · rfl

/-- From the offset of a number's first character, a digit or a point, the number ends where the
    character reader's number ends. -/
theorem numberEnd_offsetIn {x : String} {c : Char} {r : List Char} (hs : c :: r <:+ x.toList)
    (hnum : c.isDigit = true ∨ c = '.') :
    numberEnd x (offsetIn x (c :: r)).byteIdx = .ok (offsetIn x (Lexer.numberAfter c r).2).byteIdx := by
  have hasc : c.toNat < 128 := by
    rcases hnum with hd | rfl
    · rw [Lexer.isDigit_iff] at hd; omega
    · decide
  have hr := (List.suffix_cons c r).trans hs
  obtain ⟨b, hb, hbc⟩ := byte?_offsetIn_ascii hs hasc
  rw [numberEnd]
  simp only [byteAt, hb, ok_bind, hbc]
  -- the byte after the first reads the second character
  rw [offsetIn_ascii hs hasc]
  by_cases hhex : HexStart c r
  · obtain ⟨rfl, y, h, r', rfl, hy, hh⟩ := hhex
    have hyasc : y.toNat < 128 := by rcases hy with rfl | rfl <;> decide
    have hr' := (List.suffix_cons _ _).trans hr
    have h2 : (offsetIn x ('0' :: y :: h :: r')).byteIdx + 2 = (offsetIn x (h :: r')).byteIdx := by
      have := offsetIn_ascii hs hasc; have := offsetIn_ascii hr hyasc; omega
    have hy' : (y == 'x' || y == 'X') = true := by simpa using hy
    rw [char?_offsetIn_cons hr, lead_of_ascii hyasc, h2, char?_offsetIn_cons hr']
    simp only [Option.map_some, Option.getD_some, uniform_isHexDigit.lead]
    rw [if_pos (by simpa using ⟨hy, hh⟩), skipWhile_offsetIn uniform_isHexDigit hr']
    simp [Lexer.numberAfter, hy', hh]
  · rw [numberAfter_of_not_hexStart hhex, if_neg]
    · exact decimalEnd_offsetIn hs hnum
    -- a true test reads `0`, then `x` or `X`, then a hexadecimal digit
    intro hcond
    simp only [Bool.and_eq_true, Bool.or_eq_true, beq_iff_eq] at hcond
    obtain ⟨⟨rfl, hxX⟩, hdig⟩ := hcond
    rcases r with _ | ⟨y, t⟩
    · simp at hxX
    · rw [char?_offsetIn_cons hr, Option.some.injEq, Option.some.injEq, lead_eq_iff (by decide),
        lead_eq_iff (by decide)] at hxX
      have hyasc : y.toNat < 128 := by rcases hxX with rfl | rfl <;> decide
      have ht := (List.suffix_cons _ _).trans hr
      have h2 : (offsetIn x ('0' :: y :: t)).byteIdx + 2 = (offsetIn x t).byteIdx := by
        have := offsetIn_ascii hs hasc; have := offsetIn_ascii hr hyasc; omega
      rw [h2] at hdig
      rcases t with _ | ⟨h, r'⟩
      · simp at hdig
      · rw [char?_offsetIn_cons ht] at hdig
        simp only [Option.map_some, Option.getD_some, uniform_isHexDigit.lead] at hdig
        exact hhex ⟨rfl, y, h, r', rfl, hxX, by simpa using hdig⟩

/-- A number from the offset of its first character, a digit or a point. -/
theorem readNumber_offsetIn {x : String} {c : Char} {r : List Char} (hs : c :: r <:+ x.toList)
    (hnum : c.isDigit = true ∨ c = '.') :
    readNumber x (offsetIn x (c :: r)).byteIdx =
      .ok (⟨String.ofList (Lexer.numberAfter c r).1, .numeric⟩, (offsetIn x (Lexer.numberAfter c r).2).byteIdx) := by
  -- the number's characters are followed by what the reader leaves
  have hpair : Lexer.numberAfter c r = ((Lexer.numberAfter c r).1, (Lexer.numberAfter c r).2) := rfl
  obtain ⟨p, htok, hrest, -⟩ := Lexer.numberAfter_readsBack hpair
  have hsplit : c :: r = (Lexer.numberAfter c r).1 ++ (Lexer.numberAfter c r).2 := by
    rw [htok, List.cons_append, ← hrest]
  have htext := slice_offsetIn (m := (Lexer.numberAfter c r).1) (r := (Lexer.numberAfter c r).2)
    (by rw [← hsplit]; exact hs)
  rw [← hsplit] at htext
  rw [readNumber, numberEnd_offsetIn hs hnum, ok_bind, htext, ok_bind]

/-! ## Words and symbols -/

/-- A bare word from the offset of its first character. -/
theorem readWord_offsetIn {x : String} {c : Char} {r : List Char} (hs : c :: r <:+ x.toList)
    (hw : Lexer.isWordStart c = true) :
    readWord x (offsetIn x (c :: r)).byteIdx =
      .ok (⟨String.ofList (c :: r.takeWhile Lexer.isWordChar), Lexer.wordKind (String.ofList (c :: r.takeWhile Lexer.isWordChar))⟩,
        (offsetIn x (r.dropWhile Lexer.isWordChar)).byteIdx) := by
  have hc : Lexer.isWordChar c = true := Lexer.isWordChar_iff.mpr (by rw [Lexer.isWordStart_iff] at hw; omega)
  have hsplit : c :: r = (c :: r.takeWhile Lexer.isWordChar) ++ r.dropWhile Lexer.isWordChar := by simp
  have htext := slice_offsetIn (m := c :: r.takeWhile Lexer.isWordChar) (r := r.dropWhile Lexer.isWordChar)
    (by rw [← hsplit]; exact hs)
  rw [← hsplit] at htext
  rw [readWord, skipWhile_offsetIn uniform_isWordChar hs, List.dropWhile_cons_of_pos hc, ok_bind, htext, ok_bind]

theorem pairOperators_ascii {c e : Char} (h : Lexer.pairOperators.contains [c, e] = true) : e.toNat < 128 := by
  have hmem : [c, e] ∈ Lexer.pairOperators := by simpa using h
  simp only [Lexer.pairOperators, List.mem_cons, List.cons.injEq, and_true, List.not_mem_nil, or_false] at hmem
  obtain ⟨-, rfl⟩ | ⟨-, rfl⟩ | ⟨-, rfl⟩ | ⟨-, rfl⟩ | ⟨-, rfl⟩ | ⟨-, rfl⟩ | ⟨-, rfl⟩ | ⟨-, rfl⟩ := hmem <;> decide

/-- The pair test on a character's first byte gives the test on the character. -/
theorem pairOperators_lead (c d : Char) :
    Lexer.pairOperators.contains [c, lead d] = Lexer.pairOperators.contains [c, d] := by
  by_cases hd : d.toNat < 128
  · rw [lead_of_ascii hd]
  · have hhigh : ¬(lead d).toNat < 128 := fun h => hd ((lead_eq_iff h).mp rfl ▸ h)
    rw [Bool.eq_iff_iff]
    exact ⟨fun h => absurd (pairOperators_ascii h) hhigh, fun h => absurd (pairOperators_ascii h) hd⟩

/-- A symbol from the offset of its character, which is ASCII. -/
theorem readSymbol_offsetIn {x : String} {c : Char} {r : List Char} (hs : c :: r <:+ x.toList) (hc : c.toNat < 128) :
    readSymbol x (offsetIn x (c :: r)).byteIdx =
      .ok (match r with
        | d :: r' =>
          if Lexer.pairOperators.contains [c, d] then (⟨String.ofList [c, d], .operator⟩, (offsetIn x r').byteIdx)
          else (⟨String.singleton c, Lexer.symbolKind c⟩, (offsetIn x r).byteIdx)
        | [] => (⟨String.singleton c, Lexer.symbolKind c⟩, (offsetIn x []).byteIdx)) := by
  have hr := (List.suffix_cons c r).trans hs
  have h1 := offsetIn_ascii hs hc
  -- without an operator pair, one character of one byte
  have hone : ¬pairAt x (offsetIn x (c :: r)).byteIdx = true → readSymbol x (offsetIn x (c :: r)).byteIdx =
      .ok (⟨String.singleton c, Lexer.symbolKind c⟩, (offsetIn x r).byteIdx) := by
    intro hp
    obtain ⟨b, hb, hbc⟩ := byte?_offsetIn_ascii hs hc
    have htext : slice x (offsetIn x (c :: r)).byteIdx (offsetIn x r).byteIdx = .ok (String.ofList [c]) :=
      slice_offsetIn (m := [c]) hs
    unfold readSymbol
    rw [if_neg hp]
    simp only [byteAt, hb, ok_bind, slice_offsetIn_end hs, String.toList_ofList, List.head?_cons, Option.map_some,
      Option.getD_some, utf8Size_of_ascii hc, h1, htext, hbc, String.singleton_eq_ofList]
  rcases r with _ | ⟨d, r'⟩
  · -- the last character
    have hp : pairAt x (offsetIn x [c]).byteIdx = false := by
      unfold pairAt
      rw [char?_offsetIn_cons hs, h1, offsetIn_nil, char?_end]
    exact hone (by simp [hp])
  · have hpair : pairAt x (offsetIn x (c :: d :: r')).byteIdx = Lexer.pairOperators.contains [c, d] := by
      unfold pairAt
      rw [char?_offsetIn_cons hs, lead_of_ascii hc, h1, char?_offsetIn_cons hr]
      exact pairOperators_lead c d
    by_cases hcd : Lexer.pairOperators.contains [c, d] = true
    · -- an operator of two ASCII characters
      have hd := pairOperators_ascii hcd
      have h2 := offsetIn_ascii hr hd
      have htext : slice x (offsetIn x (c :: d :: r')).byteIdx (offsetIn x r').byteIdx = .ok (String.ofList [c, d]) :=
        slice_offsetIn (m := [c, d]) hs
      rw [readSymbol, if_pos (by rw [hpair]; exact hcd), show (offsetIn x (c :: d :: r')).byteIdx + 2 =
        (offsetIn x r').byteIdx by omega, htext, ok_bind]
      dsimp only
      rw [if_pos hcd]
    · rw [hone (by rw [hpair]; exact hcd)]
      dsimp only
      rw [if_neg hcd]

/-! ## Tokens -/

theorem lead_ne {c a : Char} (ha : a.toNat < 128) (h : c ≠ a) : (lead c == a) = false := by
  rw [beq_eq_false_iff_ne, Ne, lead_eq_iff ha]
  exact h

/-- From the offset of a text the lexer works on, the byte reader reads the token the character
    reader reads, and stops at the offset of the text it leaves. -/
theorem nextToken_offsetIn {x : String} {cs : List Char} (hs : cs <:+ x.toList) :
    nextToken x (offsetIn x cs).byteIdx = .ok (match Lexer.skipGaps cs with
      | [] => none
      | c :: r => some ((Lexer.readToken c r).1, (offsetIn x (Lexer.readToken c r).2).byteIdx)) := by
  have hg : Lexer.skipGaps cs <:+ x.toList := (Lexer.skipGaps_suffix cs).trans hs
  rw [nextToken, skipGaps_offsetIn hs, ok_bind]
  generalize Lexer.skipGaps cs = g at hg ⊢
  rcases g with _ | ⟨c, r⟩
  · simp
  have hr := (List.suffix_cons c r).trans hg
  rw [char?_offsetIn_cons hg]
  dsimp only
  unfold Lexer.readToken
  -- the first character chooses the reader, on both sides
  by_cases h1 : c = '\x27'
  · subst h1
    rw [lead_of_ascii (by decide), if_pos (beq_self_eq_true _), if_pos (beq_self_eq_true _),
      readQuoted_offsetIn (by decide) hg]
    rfl
  rw [lead_ne (by decide) h1, if_neg Bool.false_ne_true, if_neg (show ¬(c == '\x27') = true by simpa using h1)]
  by_cases h2 : c = '"'
  · subst h2
    rw [lead_of_ascii (by decide), if_pos (beq_self_eq_true _), if_pos (beq_self_eq_true _),
      readQuoted_offsetIn (by decide) hg]
    rfl
  rw [lead_ne (by decide) h2, if_neg Bool.false_ne_true, if_neg (show ¬(c == '"') = true by simpa using h2)]
  by_cases h3 : c = Token.backquote
  · subst h3
    rw [lead_of_ascii (by decide), if_pos (beq_self_eq_true _), if_pos (beq_self_eq_true _),
      readQuoted_offsetIn (by decide) hg]
    rfl
  rw [lead_ne (by decide) h3, if_neg Bool.false_ne_true,
    if_neg (show ¬(c == Token.backquote) = true by simpa using h3)]
  by_cases h4 : c = '['
  · subst h4
    rw [lead_of_ascii (by decide), if_pos (beq_self_eq_true _), if_pos (beq_self_eq_true _),
      offsetIn_ascii hg (by decide), readDelimited_offsetIn (by decide) hr]
    rfl
  rw [lead_ne (by decide) h4, if_neg Bool.false_ne_true, if_neg (show ¬(c == '[') = true by simpa using h4)]
  -- a blob: `X` or `x`, then a quote
  by_cases h5 : (c = 'X' ∨ c = 'x') ∧ r.head? = some '\x27'
  · obtain ⟨hX, hq⟩ := h5
    have hasc : c.toNat < 128 := by rcases hX with rfl | rfl <;> decide
    obtain ⟨r2, rfl⟩ : ∃ r2, r = '\x27' :: r2 := by
      cases r with
      | nil => simp at hq
      | cons d r2 => simp only [List.head?_cons, Option.some.injEq] at hq; exact ⟨r2, by rw [hq]⟩
    have hr2 := (List.suffix_cons _ _).trans hr
    have h2 : (offsetIn x (c :: '\x27' :: r2)).byteIdx + 2 = (offsetIn x r2).byteIdx := by
      have := offsetIn_ascii hg hasc; have := offsetIn_ascii hr (c := '\x27') (by decide); omega
    rw [lead_of_ascii hasc, offsetIn_ascii hg hasc, char?_offsetIn_cons hr, lead_of_ascii (by decide),
      if_pos (show ((c == 'X' || c == 'x') && some '\x27' == some '\x27') = true by simpa using hX),
      if_pos (show ((c == 'X' || c == 'x') && ('\x27' :: r2).head? == some '\x27') = true by simpa using hX),
      h2, readDelimited_offsetIn (by decide) hr2]
    rfl
  have hblob : ((lead c == 'X' || lead c == 'x') && char? x ((offsetIn x (c :: r)).byteIdx + 1) == some '\x27') =
      false := by
    by_cases hX : c = 'X' ∨ c = 'x'
    · have hasc : c.toNat < 128 := by rcases hX with rfl | rfl <;> decide
      have hq : ¬char? x (offsetIn x r).byteIdx = some '\x27' := by
        rw [char?_offsetIn_eq_some hr (by decide)]
        exact fun h => h5 ⟨hX, h⟩
      rw [lead_of_ascii hasc, offsetIn_ascii hg hasc]
      simpa [hX] using hq
    · have hX' : ¬(c = 'X' ∨ c = 'x') := hX
      rw [not_or] at hX'
      rw [lead_ne (by decide) hX'.1, lead_ne (by decide) hX'.2]
      rfl
  rw [hblob, if_neg Bool.false_ne_true,
    if_neg (show ¬((c == 'X' || c == 'x') && r.head? == some '\x27') = true by simpa using h5)]
  -- a number: a digit, or a point before a digit
  have hnumber : ((lead c).isDigit || (lead c == '.' &&
      ((char? x ((offsetIn x (c :: r)).byteIdx + 1)).map Char.isDigit).getD false)) =
      (c.isDigit || (c == '.' && (r.head?.map Char.isDigit).getD false)) := by
    rw [uniform_isDigit.lead]
    by_cases hp : c = '.'
    · subst hp
      rw [lead_of_ascii (by decide), offsetIn_ascii hg (by decide), char?_offsetIn_map_head uniform_isDigit hr]
    · rw [lead_ne (by decide) hp, show (c == '.') = false by simpa using hp]
      simp only [Bool.false_and]
  rw [hnumber]
  split
  · rename_i h6
    have hnum : c.isDigit = true ∨ c = '.' := by
      simp only [Bool.or_eq_true, Bool.and_eq_true, beq_iff_eq] at h6
      exact h6.imp_right And.left
    rw [readNumber_offsetIn hg hnum]
    rfl
  -- a bare word, or a symbol
  rw [uniform_isWordStart.lead]
  split
  · rename_i h7
    rw [readWord_offsetIn hg h7]
    rfl
  · rename_i h7
    have hasc : c.toNat < 128 := by
      by_contra hhigh
      exact h7 (Lexer.isWordStart_iff.mpr (by omega))
    rw [readSymbol_offsetIn hg hasc]
    rcases r with _ | ⟨d, r'⟩
    · rfl
    · dsimp only
      split <;> rfl

/-- From the offset of a suffix, the byte reader reads the tokens the character lexer reads from the
    suffix. The induction follows the character lexer: each step reads the same token and leaves
    the offset of the same rest. -/
theorem tokens_offsetIn {x : String} {cs : List Char} (hs : cs <:+ x.toList) :
    tokens x (offsetIn x cs).byteIdx = .ok (Lexer.tokens cs) := by
  fun_induction Lexer.tokens cs with
  | case1 cs h =>
    have hn := nextToken_offsetIn hs
    rw [h] at hn
    rw [tokens]
    split
    · rfl
    all_goals rename_i heq; rw [hn] at heq; cases heq
  | case2 cs c r h _ ih =>
    have hn := nextToken_offsetIn hs
    rw [h] at hn
    rw [tokens]
    split
    · rename_i heq; rw [hn] at heq; cases heq
    · rename_i heq
      rw [hn] at heq
      cases heq
      rw [ih ((Lexer.readToken_advances h).1.trans hs)]
      rfl
    · rename_i heq; rw [hn] at heq; cases heq

/-- The lexer read over bytes never faults, and it reads the lexer's tokens: every byte it indexes
    is there and every cut it makes lies between two characters, at most the end. Each token's
    source form, its text or for a quoted kind the opening quote and the text with its quotes
    doubled, stands in the statement. -/
theorem tokenize_never_faults (x : String) :
    tokenize x = .ok (SqlSchema.tokenize x) ∧ ∀ t ∈ SqlSchema.tokenize x, t.sourceText <:+: x.toList := by
  refine ⟨?_, Lexer.sourceText_infix_tokens x.toList⟩
  have h := tokens_offsetIn (List.suffix_refl x.toList)
  have h0 : (offsetIn x x.toList).byteIdx = 0 := by simp [offsetIn]
  rw [h0] at h
  exact h

end SqlSchema.ByteLexer
